import Iemnet.Setup.Register

/-!
# What registration tells its caller

iemnet.h promises {lit}`1` for the first call with a name and {lit}`0` for every other one;
{lit}`iemnet__register` returns {lit}`1` either way.  The list of names is in order all the
same.

Main results:

- Theorem {lit}`nametakenFrom_eq`: the loop of {lit}`iemnet__nametaken` finds the name or ends
  at the last node.
- Theorem {lit}`Names.Holds.register`: one call of {lit}`iemnet__register`.
- Theorem {lit}`register_first_iff`: whole runs; the results are as promised exactly if no
  name is registered twice.
-/

namespace Iemnet

open Foundations
open Foundations.LinkedList

/-! ## Duplicates -/

/-- One more element leaves the list without duplicates as it is or extends it. -/
theorem eraseDups_append_singleton {α : Type*} [DecidableEq α] (l : List α) (a : α) :
    (l ++ [a]).eraseDups = if a ∈ l then l.eraseDups else l.eraseDups ++ [a] := by
  rw [List.eraseDups_append]
  by_cases ha : a ∈ l <;> simp [List.removeAll, ha, List.eraseDups_cons]

/-- No element occurs among those before it. -/
theorem nodup_iff_notMem_take {α : Type*} {l : List α} :
    l.Nodup ↔ ∀ i a, l[i]? = some a → a ∉ l.take i := by
  induction l using List.reverseRecOn with
  | nil => simp
  | append_singleton l b ih =>
      rw [List.nodup_append, ih]
      constructor
      · rintro ⟨hearlier, -, hlast⟩ i a ha hmem
        rcases Nat.lt_or_ge i l.length with hi | hi
        · rw [List.getElem?_append_left hi] at ha
          rw [List.take_append_of_le_length hi.le] at hmem
          exact hearlier i a ha hmem
        · rw [List.getElem?_append_right hi, List.getElem?_singleton] at ha
          split at ha
          · rename_i hzero
            have hi : i = l.length := by omega
            rw [hi, List.take_left] at hmem
            exact hlast a hmem b (List.mem_singleton_self b) (Option.some.inj ha).symm
          · cases ha
      · intro h
        refine ⟨fun i a ha hmem => ?_, List.nodup_singleton b, ?_⟩
        · have hi := (List.getElem?_eq_some_iff.1 ha).1
          apply h i a
          · rw [List.getElem?_append_left hi, ha]
          · rw [List.take_append_of_le_length hi.le]
            exact hmem
        · intro a hmem c hc hac
          rw [List.mem_singleton] at hc
          apply h l.length b (by simp)
          rw [List.take_left, ← hc, ← hac]
          exact hmem

section Names

variable {σ : Type} {gensym : String → σ}
variable {x : Names σ} {names : List String} {nodes : List (Nat × σ)} {name : String}

/-! ## The list -/

/-- The list consists of {lit}`nodes`, one for each of {lit}`names` in the order of their
first use, and each of them has been announced once. -/
structure Names.Holds (gensym : String → σ) (x : Names σ) (names : List String)
    (nodes : List (Nat × σ)) : Prop where
  seg : Seg x.heap x.namelist nodes none
  symbols : nodes.map Prod.snd = names.eraseDups.map gensym
  made : x.made = nodes.length
  firsttime : x.firsttime = decide (names = [])
  posted : x.posted =
    if names = [] then [] else .banner :: names.eraseDups.map .loaded

/-- The list of names is empty at first. -/
theorem Names.holds_empty (gensym : String → σ) : (empty σ).Holds gensym [] [] :=
  ⟨rfl, rfl, rfl, rfl, rfl⟩

/-- A new node behind the last one. -/
theorem Names.Holds.append (h : x.Holds gensym names nodes) (symbol : σ) {addr : Nat}
    (haddr : x.heap addr = none) :
    ∃ heap namelist,
      x.append symbol ((nodes.map Prod.fst).getLast?.or x.namelist) addr =
        some { x with heap := heap, namelist := namelist, made := x.made + 1 } ∧
      Seg heap namelist (nodes ++ [(addr, symbol)]) none := by
  have hfresh : addr ∉ nodes.map Prod.fst := by
    intro hmem
    rcases List.mem_map.1 hmem with ⟨⟨a, d⟩, hd, rfl⟩
    rcases h.seg.live hd with ⟨nx, hcell⟩
    rw [haddr] at hcell
    cases hcell
  have hlinked := h.seg.update_of_notMem hfresh (some ⟨none, symbol⟩)
  have hcell : Function.update x.heap addr (some ⟨none, symbol⟩) addr =
      some ⟨none, symbol⟩ := Function.update_self ..
  rw [Names.append, if_pos (by rw [haddr]; rfl)]
  rcases List.eq_nil_or_concat nodes with rfl | ⟨front, ⟨t, d⟩, rfl⟩
  · have hnull : x.namelist = none := h.seg
    rw [hnull]
    exact ⟨_, _, rfl, rfl, none, hcell, rfl⟩
  · rw [List.concat_eq_append] at hlinked hfresh ⊢
    rcases hlinked.live (List.mem_append_right front (List.mem_singleton_self (t, d))) with
      ⟨nx, hlast⟩
    have hnext := hlinked.link_last hcell hfresh
    refine ⟨_, _, ?_, hnext⟩
    simp [hlast]

/-- What is announced with a new name. -/
theorem Names.Holds.posted_new (h : x.Holds gensym names nodes) (hname : name ∉ names) :
    x.posted ++ (if x.firsttime then [.banner] else []) ++ [.loaded name] =
      .banner :: (names ++ [name]).eraseDups.map .loaded := by
  rw [eraseDups_append_singleton, if_neg hname, h.posted, h.firsttime]
  by_cases hnil : names = []
  · simp [hnil]
  · simp [hnil]

variable [DecidableEq σ]

/-- The loop of {lit}`iemnet__nametaken` over the nodes of a list. -/
theorem nametakenFrom_eq {heap : Heap Nat σ} (name : σ) {p : Option Nat}
    {l : List (Nat × σ)} (hl : Seg heap p l none) {fuel : Nat} (hfuel : l.length ≤ fuel)
    (lastname : Option Nat) :
    nametakenFrom heap name fuel p lastname =
      some (if name ∈ l.map Prod.snd then .taken
        else .new ((l.map Prod.fst).getLast?.or lastname)) := by
  induction l generalizing p fuel lastname with
  | nil =>
      rw [seg_nil] at hl
      subst hl
      cases fuel <;> rfl
  | cons c l ih =>
      rcases c with ⟨a, d⟩
      rcases hl with ⟨rfl, nx, hcell, hrest⟩
      rcases fuel with _ | fuel
      · simp at hfuel
      · rw [nametakenFrom, hcell, Option.bind_some]
        by_cases hd : name = d
        · simp [hd]
        · have hlast : (l.map Prod.fst).getLast?.or (some a) =
              ((a :: l.map Prod.fst).getLast?).or lastname := by
            rw [List.getLast?_cons]
            cases (l.map Prod.fst).getLast? <;> rfl
          rw [if_neg hd, ih hrest (by simpa using hfuel), hlast]
          simp only [List.map_cons, List.mem_cons, hd, false_or]

namespace Names

/-- A name that is on the list. -/
theorem Holds.nametaken_of_mem (h : x.Holds gensym names nodes) (hname : name ∈ names)
    (addr : Nat) :
    x.nametaken gensym name addr = some (x, 1) := by
  have hmem : gensym name ∈ nodes.map Prod.snd := by
    rw [h.symbols]
    exact List.mem_map_of_mem (List.mem_eraseDups.2 hname)
  rw [nametaken, nametakenFrom_eq _ h.seg h.made.ge, if_pos hmem]
  rfl

/-- A name that is not on the list. -/
theorem Holds.nametaken_of_notMem (h : x.Holds gensym names nodes)
    (hgensym : Function.Injective gensym) (hname : name ∉ names) (addr : Nat) :
    x.nametaken gensym name addr =
      (x.append (gensym name) ((nodes.map Prod.fst).getLast?.or x.namelist) addr).map
        fun x => (x, 0) := by
  have hnew : gensym name ∉ nodes.map Prod.snd := by
    rw [h.symbols]
    exact fun hmem => hname (List.mem_eraseDups.1 ((List.mem_map_of_injective hgensym).1 hmem))
  rw [nametaken, nametakenFrom_eq _ h.seg h.made.ge, if_neg hnew]
  rfl

/-- One call of {lit}`iemnet__register`: it returns {lit}`1` whatever the name. -/
theorem Holds.register (h : x.Holds gensym names nodes)
    (hgensym : Function.Injective gensym) {addr : Nat} (haddr : name ∈ names ∨ x.heap addr = none) :
    ∃ x' nodes', x.register gensym name addr = some (x', 1) ∧
      x'.Holds gensym (names ++ [name]) nodes' := by
  have hmore : names ++ [name] ≠ [] := by simp
  by_cases hname : name ∈ names
  · have hsome : names ≠ [] := List.ne_nil_of_mem hname
    have hsame : (names ++ [name]).eraseDups = names.eraseDups := by
      rw [eraseDups_append_singleton, if_pos hname]
    refine ⟨x, nodes, ?_, h.seg, by rw [hsame, h.symbols], h.made, ?_, ?_⟩
    · rw [Names.register, h.nametaken_of_mem hname]
      rfl
    · rw [h.firsttime, decide_eq_false hsome, decide_eq_false hmore]
    · rw [h.posted, if_neg hsome, if_neg hmore, hsame]
  · have hone : (names ++ [name]).eraseDups = names.eraseDups ++ [name] := by
      rw [eraseDups_append_singleton, if_neg hname]
    rcases h.append (gensym name) (haddr.resolve_left hname) with
      ⟨heap, namelist, happend, hseg⟩
    refine ⟨{ x with
        heap := heap
        namelist := namelist
        made := x.made + 1
        firsttime := false
        posted := x.posted ++ (if x.firsttime then [.banner] else []) ++ [.loaded name] },
      nodes ++ [(addr, gensym name)], ?_, hseg, ?_, ?_, ?_, ?_⟩
    · rw [Names.register, h.nametaken_of_notMem hgensym hname, happend]
      cases x.firsttime <;> simp
    · rw [hone, List.map_append, List.map_append, h.symbols]
      rfl
    · rw [List.length_append, ← h.made]
      rfl
    · exact (decide_eq_false hmore).symm
    · rw [if_neg hmore]
      exact h.posted_new hname

/-- A call that returns had a place for its node. -/
theorem Holds.addr_of_register (h : x.Holds gensym names nodes)
    (hgensym : Function.Injective gensym) {addr : Nat} {r : Names σ × Int}
    (hregister : x.register gensym name addr = some r) :
    name ∈ names ∨ x.heap addr = none := by
  by_contra hneither
  rw [not_or] at hneither
  have hused : ¬ (x.heap addr).isNone := by simpa using hneither.2
  rw [Names.register, h.nametaken_of_notMem hgensym hneither.1, Names.append, if_neg hused]
    at hregister
  cases hregister

end Names

/-! ## Runs -/

/-- The results are {lit}`1` exactly for the first call with each name. -/
def Truthful (names : List String) (results : List Int) : Prop :=
  ∀ (i : Nat) name, names[i]? = some name → (results[i]? = some 1 ↔ name ∉ names.take i)

/-- Nothing but ones is right if every call is the first with its name. -/
theorem truthful_ones_iff (names : List String) :
    Truthful names (List.replicate names.length 1) ↔ names.Nodup := by
  have hone : ∀ (i : Nat) name, names[i]? = some name →
      (List.replicate names.length (1 : Int))[i]? = some 1 := by
    intro i name hname
    rw [List.getElem?_replicate, if_pos (List.getElem?_eq_some_iff.1 hname).1]
  rw [nodup_iff_notMem_take]
  constructor
  · intro h i name hname
    exact (h i name hname).1 (hone i name hname)
  · intro h i name hname
    exact iff_of_true (hone i name hname) (h i name hname)

/-- The process after the calls {lit}`as`. -/
structure Loaded (gensym : String → σ) (x : Process σ) (as : List SetupCall) : Prop where
  names : ∃ nodes, x.names.Holds gensym (as.map SetupCall.name) nodes
  results : x.results = List.replicate as.length 1
  classes : x.classes = as.filterMap SetupCall.class?

variable {y : Process σ} {as done : List SetupCall}

omit [DecidableEq σ] in
/-- Before the first setup nothing is loaded. -/
theorem loaded_start (gensym : String → σ) : Loaded gensym (.start σ) [] :=
  ⟨⟨[], Names.holds_empty gensym⟩, rfl, rfl⟩

/-- What the two kinds of calls have in common. -/
theorem setupMachine_step (gensym : String → σ) (y : Process σ) (a : SetupCall) :
    (setupMachine gensym).step y a =
      (y.names.register gensym a.name a.addr).map fun r =>
        ⟨r.1, y.results ++ [r.2], if r.2 = 0 then y.classes else y.classes ++ a.class?.toList⟩ := by
  cases a with
  | register name addr =>
      apply congrArg fun f => (y.names.register gensym name addr).map f
      ext r
      simp [SetupCall.class?]
  | setup c addr =>
      apply congrArg fun f => (y.names.register gensym c.objName addr).map f
      ext r
      simp only [SetupCall.class?, Option.toList_some]
      split <;> rfl

/-- Every setup adds itself to what is loaded. -/
theorem Loaded.step (h : Loaded gensym y done) (hgensym : Function.Injective gensym)
    {a : SetupCall} {y' : Process σ} (hstep : (setupMachine gensym).step y a = some y') :
    Loaded gensym y' (done ++ [a]) := by
  rw [setupMachine_step] at hstep
  rcases Option.map_eq_some_iff.1 hstep with ⟨r, hr, rfl⟩
  rcases h.names with ⟨nodes, hnodes⟩
  rcases hnodes.register hgensym (hnodes.addr_of_register hgensym hr) with
    ⟨x', nodes', hregister, hholds⟩
  rw [hr, Option.some.injEq] at hregister
  subst hregister
  refine ⟨⟨nodes', ?_⟩, ?_, ?_⟩
  · rw [List.map_append]
    exact hholds
  · rw [h.results, List.length_append, List.replicate_add]
    rfl
  · rw [List.filterMap_append, ← h.classes]
    cases a <;> rfl

/-- A run of calls. -/
theorem Loaded.run (h : Loaded gensym y done) (hgensym : Function.Injective gensym)
    {y' : Process σ} (hrun : (setupMachine gensym).run y as = some y') :
    Loaded gensym y' (done ++ as) := by
  induction as generalizing y done with
  | nil =>
      rw [Machine.run_nil, Option.some.injEq] at hrun
      rw [List.append_nil, ← hrun]
      exact h
  | cons a as ih =>
      rw [Machine.run_cons, Option.bind_eq_some_iff] at hrun
      rcases hrun with ⟨t, ht, hrest⟩
      have hlater := ih (h.step hgensym ht) hrest
      rwa [List.append_assoc] at hlater

/-- No two classes have the same name. -/
theorem objName_injective : Function.Injective ObjectClass.objName := by
  intro c d h
  cases c <;> cases d <;> first | rfl | (exact absurd h (by decide))

/-- Setup functions that register no name twice are called once each. -/
theorem nodup_classes (h : (as.map SetupCall.name).Nodup) :
    (as.filterMap SetupCall.class?).Nodup := by
  have hsub : ((as.filterMap SetupCall.class?).map ObjectClass.objName).Sublist
      (as.map SetupCall.name) := by
    clear h
    induction as with
    | nil => exact List.Sublist.refl _
    | cons a as ih =>
        cases a with
        | register name addr => exact ih.cons name
        | setup c addr => exact ih.cons_cons c.objName
  exact (h.sublist hsub).of_map

/-- After any calls of {lit}`iemnet__register`, from setup functions and elsewhere, the list
holds the symbol of each name once, in the order of first use, and every further call
returns.  The results tell the first call with each name, and the body of no setup function
has run twice, exactly if no name has been registered twice. -/
theorem register_first_iff (hgensym : Function.Injective gensym) {y : Process σ}
    (hrun : (setupMachine gensym).run (.start σ) as = some y) :
    (∃ nodes, Seg y.names.heap y.names.namelist nodes none ∧
        nodes.map Prod.snd = (as.map SetupCall.name).eraseDups.map gensym) ∧
      (∀ a : SetupCall, y.names.heap a.addr = none →
        ∃ y', (setupMachine gensym).step y a = some y') ∧
      ((Truthful (as.map SetupCall.name) y.results ∧ ∀ c, y.classes.count c ≤ 1) ↔
        (as.map SetupCall.name).Nodup) := by
  have hloaded : Loaded gensym y as := (loaded_start gensym).run hgensym hrun
  rcases hloaded.names with ⟨nodes, hnodes⟩
  have hresults : Truthful (as.map SetupCall.name) y.results ↔ (as.map SetupCall.name).Nodup := by
    rw [← truthful_ones_iff, hloaded.results, List.length_map]
  refine ⟨⟨nodes, hnodes.seg, hnodes.symbols⟩, fun a haddr => ?_, ?_⟩
  · have hplace : a.name ∈ as.map SetupCall.name ∨ y.names.heap a.addr = none := Or.inr haddr
    rcases hnodes.register hgensym hplace with ⟨x', _, hregister, -⟩
    rw [setupMachine_step, hregister]
    exact ⟨_, rfl⟩
  · rw [hresults]
    refine ⟨fun h => h.1, fun h => ⟨h, ?_⟩⟩
    rw [hloaded.classes]
    exact List.nodup_iff_count_le_one.1 (nodup_classes h)

end Names

/-- The calls of {lit}`iemnet_setup`. -/
def wholeLibrary (addr : ObjectClass → Nat) : List SetupCall :=
  [.tcpclient, .tcpreceive, .tcpsend, .tcpserver, .udpclient, .udpreceive, .udpsend,
    .udpserver].map fun c => .setup c (addr c)

/-- The setup of the library is that of its classes, one after the other. -/
theorem iemnetSetup_eq_run {σ : Type} [DecidableEq σ] (gensym : String → σ) (y : Process σ)
    (addr : ObjectClass → Nat) :
    y.iemnetSetup gensym addr = (setupMachine gensym).run y (wholeLibrary addr) := by
  simp only [wholeLibrary, List.map_cons, List.map_nil, Machine.run_cons, Machine.run_nil,
    Option.bind_fun_some]
  rfl

/-- The whole library registers eight names. -/
theorem register_first_run :
    ∃ y, (setupMachine id).run (.start String) (wholeLibrary ObjectClass.ctorIdx) = some y ∧
      (∃ nodes, Seg y.names.heap y.names.namelist nodes none ∧
        nodes.map Prod.snd = ["tcpclient", "tcpreceive", "tcpsend", "tcpserver", "udpclient",
          "udpreceive", "udpsend", "udpserver"]) ∧
      Truthful ((wholeLibrary ObjectClass.ctorIdx).map SetupCall.name) y.results ∧
      ∀ c, y.classes.count c ≤ 1 := by
  have hrun : (setupMachine id).run (.start String) (wholeLibrary ObjectClass.ctorIdx) =
      some _ := rfl
  have hdistinct : ((wholeLibrary ObjectClass.ctorIdx).map SetupCall.name).Nodup := by decide
  have hall := register_first_iff Function.injective_id hrun
  exact ⟨_, hrun, hall.1, hall.2.2.2 hdistinct⟩

/-- The library as a whole, and then {lit}`tcpserver` by itself. -/
def serverTwice : List SetupCall :=
  wholeLibrary ObjectClass.ctorIdx ++ [.setup .tcpserver 8]

/-- The second registration of {lit}`tcpserver` looks like the first, and its class is created
again. -/
theorem register_repeats :
    ∃ y, (setupMachine id).run (.start String) serverTwice = some y ∧
      y.results = List.replicate 9 1 ∧ y.classes.count .tcpserver = 2 ∧
      ¬ Truthful (serverTwice.map SetupCall.name) y.results := by
  have hrun : (setupMachine id).run (.start String) serverTwice = some _ := rfl
  refine ⟨_, hrun, rfl, rfl, fun htruthful => ?_⟩
  exact absurd ((htruthful 8 "tcpserver" rfl).1 rfl) (by decide)

end Iemnet
