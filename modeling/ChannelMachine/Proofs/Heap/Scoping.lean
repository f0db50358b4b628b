import Mathlib.Logic.Function.Basic
import ChannelMachine.Proofs.Heap.Keeping

/-!
# Environments as lists of shared frames

Frames and environments are made and variables are assigned, while other nodes are allocated and garbage is
collected.  `Storing` says what happened, beside a `Store` in which an environment is a list of frames and a
frame is a list of variables.  What a variable has in the heap is what it has in the store
(`Storing.scoping`), so that environments share the frames that they have in common, and nothing else.
-/

namespace ChannelMachine.Heap

variable {h k : Heap} {a e f v : Address} {fs ss : List Address} {p q : Position} {roots : Roots}

/-! ## Stores -/

/-- What environments and frames there are, and what they hold. -/
structure Store where
  /-- The frames of an environment, outermost first. -/
  environments : Address → Option (List Address)
  /-- The variables of a frame. -/
  frames : Address → Option (List Address)

namespace Store

/-- Nothing was made so far. -/
def empty : Store := ⟨fun _ => none, fun _ => none⟩

def withEnvironment (σ : Store) (e : Address) (fs : List Address) : Store :=
  { σ with environments := Function.update σ.environments e (some fs) }

def withFrame (σ : Store) (f : Address) (ss : List Address) : Store :=
  { σ with frames := Function.update σ.frames f (some ss) }

/-- A variable of a frame is written. -/
def write (σ : Store) (f : Address) (slot : Nat) (v : Address) : Store :=
  { σ with frames := Function.update σ.frames f ((σ.frames f).map (·.set slot v)) }

/-- The value of a variable, if there is one at this position. -/
def read? (σ : Store) (e : Address) (p : Position) : Option Address := do
  let fs ← σ.environments e
  let f ← fs[p.frame]?
  let ss ← σ.frames f
  ss[p.slot]?

/-- The environments are roots of a collection, and so are the frames that are in none of them. -/
structure Rooted (σ : Store) (h : Heap) (roots : Roots) : Prop where
  /-- The roots are in use. -/
  inUse : ∀ a ∈ roots.get, h.InUse a
  /-- An environment can be reached from them. -/
  environment : ∀ e fs, σ.environments e = some fs → h.Live roots.get e
  /-- And a frame, unless an environment has it. -/
  frame : ∀ f ss, σ.frames f = some ss →
    h.Live roots.get f ∨ ∃ e fs, σ.environments e = some fs ∧ f ∈ fs

/-- A store with fewer environments and frames, and with all frames of its environments. -/
structure Within (τ σ : Store) : Prop where
  /-- It has no other environments. -/
  environment : ∀ e fs, τ.environments e = some fs → σ.environments e = some fs
  /-- It has no other frames. -/
  frame : ∀ f ss, τ.frames f = some ss → σ.frames f = some ss
  /-- It has those of its environments. -/
  known : ∀ e fs, τ.environments e = some fs → ∀ f ∈ fs, ∃ ss, τ.frames f = some ss

variable {σ τ : Store}

theorem read?_eq (he : σ.environments e = some fs) (hf : fs[p.frame]? = some f)
    (hss : σ.frames f = some ss) : σ.read? e p = ss[p.slot]? := by
  simp [read?, he, hf, hss]

theorem read?_eq_none (he : σ.environments e = some fs) (hf : fs[p.frame]? = none) :
    σ.read? e p = none := by
  simp [read?, he, hf]

namespace Rooted

theorem of_empty (hroots : ∀ a ∈ roots.get, h.InUse a) : empty.Rooted h roots where
  inUse := hroots
  environment _ _ he := by cases he
  frame _ _ hf := by cases hf

variable (rooted : σ.Rooted h roots)
include rooted

theorem withFrame (hlive : h.Live roots.get a) : (σ.withFrame a ss).Rooted h roots where
  inUse := rooted.inUse
  environment := rooted.environment
  frame f ts hf := by
    by_cases heq : f = a
    · exact .inl (heq ▸ hlive)
    · exact rooted.frame f ts (by simpa [Store.withFrame, heq] using hf)

theorem withEnvironment (hfresh : σ.environments a = none) (hlive : h.Live roots.get a) :
    (σ.withEnvironment a fs).Rooted h roots where
  inUse := rooted.inUse
  environment e gs he := by
    by_cases heq : e = a
    · exact heq ▸ hlive
    · exact rooted.environment e gs (by simpa [Store.withEnvironment, heq] using he)
  frame f ss hf := by
    refine (rooted.frame f ss hf).imp id fun ⟨e, gs, he, hmem⟩ => ⟨e, gs, ?_, hmem⟩
    have hne : e ≠ a := by
      rintro rfl
      simp [hfresh] at he
    simpa [Store.withEnvironment, hne] using he

theorem write {slot : Nat} : (σ.write f slot v).Rooted h roots where
  inUse := rooted.inUse
  environment := rooted.environment
  frame g ts hg := by
    by_cases heq : g = f
    · obtain ⟨ss, hss, -⟩ : ∃ ss, σ.frames g = some ss ∧ _ := by simpa [Store.write, heq] using hg
      exact rooted.frame g ss hss
    · exact rooted.frame g ts (by simpa [Store.write, heq] using hg)

end Rooted

/-- A variable is written in all environments with the frame. -/
theorem read?_write {slot : Nat} (hss : σ.frames f = some ss) (hlt : slot < ss.length)
    (he : σ.environments e = some fs) : (σ.write f slot v).read? e q =
      if fs[q.frame]? = some f ∧ q.slot = slot then some v else σ.read? e q := by
  have hsame : (σ.write f slot v).environments e = some fs := he
  cases hg : fs[q.frame]? with
  | none => rw [read?_eq_none hsame hg, read?_eq_none he hg, if_neg (by simp)]
  | some g =>
    by_cases heq : g = f
    · subst heq
      have hwritten : (σ.write g slot v).frames g = some (ss.set slot v) := by simp [write, hss]
      rw [read?_eq hsame hg hwritten, read?_eq he hg hss, List.getElem?_set]
      by_cases hslot : slot = q.slot
      · rw [if_pos hslot, if_pos (hslot ▸ hlt), if_pos ⟨rfl, hslot.symm⟩]
      · rw [if_neg hslot, if_neg fun h => hslot h.2.symm]
    · have hother : (σ.write f slot v).frames g = σ.frames g := by simp [write, heq]
      rw [if_neg fun h => heq (Option.some.inj h.1), read?, read?, hsame, he]
      simp [hg, hother]

end Store

open Store

/-- What happened to a heap, and the environments and frames that are used now. -/
inductive Storing : Heap → Store → Prop where
  /-- Nothing was made so far. -/
  | start {h : Heap} (handled : Handled h) : Storing h empty
  /-- A frame is made. -/
  | newFrame {h k : Heap} {σ : Store} {roots : Roots} {a : Address} (slots : Nat) (storing : Storing h σ)
      (rooted : σ.Rooted h roots) (hmade : newFrame slots roots h = .ok a k) :
      Storing k (σ.withFrame a (.replicate slots unassigned))
  /-- An environment without frames is made. -/
  | emptyEnvironment {h k : Heap} {σ : Store} {roots : Roots} {a : Address} (storing : Storing h σ)
      (rooted : σ.Rooted h roots) (hmade : emptyEnvironment roots h = .ok a k) :
      Storing k (σ.withEnvironment a [])
  /-- An environment with one frame more than another one is made. -/
  | extend {h k : Heap} {σ : Store} {roots : Roots} {a e f : Address} {fs ss : List Address}
      (storing : Storing h σ) (rooted : σ.Rooted h roots) (he : σ.environments e = some fs)
      (hf : σ.frames f = some ss) (hmade : extend e f roots h = .ok a k) :
      Storing k (σ.withEnvironment a (fs ++ [f]))
  /-- A variable is assigned. -/
  | assign {h k : Heap} {σ : Store} {e f v : Address} {fs : List Address} {p : Position}
      (storing : Storing h σ) (he : σ.environments e = some fs) (hf : fs[p.frame]? = some f)
      (hv : h.InUse v) (hassign : assign e p v h = .ok () k) : Storing k (σ.write f p.slot v)
  /-- Something else is allocated, or an allocation fails, or garbage is collected. -/
  | take {h k : Heap} {σ : Store} {roots : Roots} (storing : Storing h σ) (rooted : σ.Rooted h roots)
      (takes : Takes h roots k) : Storing k σ
  /-- Some environments and frames are not used any more. -/
  | forget {h : Heap} {σ τ : Store} (storing : Storing h σ) (within : τ.Within σ) : Storing h τ

/-! ## The store in the heap -/

/-- The heap holds what the store holds. -/
structure Scopes (h : Heap) (σ : Store) : Prop where
  /-- It is formed. -/
  formed : h.Formed
  /-- What is in use leads to nodes in use. -/
  closed : h.Closed
  /-- An environment has its frames. -/
  environment : ∀ {e fs}, σ.environments e = some fs →
    h.InUse e ∧ h.tag e = .environment ∧ h.framesOf e = fs
  /-- A frame has its variables. -/
  frame : ∀ {f ss}, σ.frames f = some ss → h.InUse f ∧ h.tag f = .frame ∧ h.slotsOf f = ss
  /-- The frames of an environment are frames. -/
  known : ∀ {e fs f}, σ.environments e = some fs → f ∈ fs → ∃ ss, σ.frames f = some ss

theorem SameNode.slotsOf (same : SameNode h k f) (hle : h.size f ≤ nodeSize) :
    k.slotsOf f = h.slotsOf f := (same.framesOf hle).2

theorem slotsOf_setWord {slot : Nat} (hf : h.IsBlock f) (hle : h.size f ≤ nodeSize)
    (hslot : slot + 1 < nodeSize) : (h.setWord f (slot + 1) v).slotsOf f = (h.slotsOf f).set slot v := by
  have hsize : (h.setWord f (slot + 1) v).size f = h.size f := by
    rw [size, size, header_setWord hf hf (Nat.le_add_left ..) hslot]
  refine List.ext_getElem (by simp [length_slotsOf, hsize]) fun i hi _ => ?_
  rw [length_slotsOf, hsize] at hi
  simp only [slotsOf, List.getElem_set, List.getElem_map, List.getElem_range]
  rw [word_setWord_block hf hf hslot (by omega)]
  simp only [true_and, Nat.add_right_cancel_iff, eq_comm]

theorem takes_of_ok {x : Action Address} (takes : Takes h roots (leaves x h)) (hx : x h = .ok a k) :
    Takes h roots k := by
  rwa [leaves, hx] at takes

namespace Scopes

variable {σ τ : Store} (scopes : Scopes h σ)
include scopes

theorem size_environment (he : σ.environments e = some fs) : h.size e ≤ nodeSize := by
  obtain ⟨hin, htag, -⟩ := scopes.environment he
  have hrange := (scopes.formed.nodeFormed hin.toIsBlock).range
  rwa [childRange_environment htag] at hrange

theorem size_frame (hf : σ.frames f = some ss) : h.size f ≤ nodeSize := by
  obtain ⟨hin, htag, -⟩ := scopes.frame hf
  have hrange := (scopes.formed.nodeFormed hin.toIsBlock).range
  rwa [childRange_frame htag] at hrange

theorem live_frame (rooted : σ.Rooted h roots) (hf : σ.frames f = some ss) : h.Live roots.get f := by
  rcases rooted.frame f ss hf with hlive | ⟨e, fs, he, hmem⟩
  · exact hlive
  obtain ⟨hin, htag, rfl⟩ := scopes.environment he
  obtain ⟨i, hi, rfl⟩ := List.mem_map.1 hmem
  have hlt : i < h.size e - 1 := List.mem_range.1 hi
  exact .child (rooted.environment e _ he)
    (scopes.formed.child_environment hin.toIsBlock htag (Nat.le_add_left ..) (by omega))

/-! ## Variables -/

theorem slotOf?_eq (he : σ.environments e = some fs) (hf : fs[p.frame]? = some f)
    (hss : σ.frames f = some ss) :
    h.slotOf? e p = if p.slot < ss.length then some (f, p.slot + 1) else none := by
  obtain ⟨-, -, rfl⟩ := scopes.environment he
  obtain ⟨-, htag, rfl⟩ := scopes.frame hss
  have hlt : p.frame < h.frameCount e := by
    rw [← length_framesOf]
    exact (List.getElem?_eq_some_iff.1 hf).1
  obtain rfl : h.word e (p.frame + 1) = f := Option.some.inj ((getElem?_framesOf hlt).symm.trans hf)
  rw [slotOf?, if_pos hlt, length_slotsOf]
  simp only [htag, true_and, Nat.lt_sub_iff_add_lt]

theorem slotOf?_eq_none (he : σ.environments e = some fs) (hf : fs[p.frame]? = none) :
    h.slotOf? e p = none := by
  obtain ⟨-, -, rfl⟩ := scopes.environment he
  rw [List.getElem?_eq_none_iff, length_framesOf] at hf
  rw [slotOf?, if_neg (Nat.not_lt.2 hf)]

/-- A variable has a word in its frame, which has its value. -/
theorem slotOf?_cases (he : σ.environments e = some fs) (p : Position) :
    (σ.read? e p = none ∧ h.slotOf? e p = none) ∨
      ∃ f ss, fs[p.frame]? = some f ∧ σ.frames f = some ss ∧ p.slot < ss.length ∧
        h.slotOf? e p = some (f, p.slot + 1) ∧ σ.read? e p = some (h.word f (p.slot + 1)) := by
  cases hf : fs[p.frame]? with
  | none => exact .inl ⟨read?_eq_none he hf, scopes.slotOf?_eq_none he hf⟩
  | some f =>
    obtain ⟨ss, hss⟩ := scopes.known he (List.mem_of_getElem? hf)
    have hslot := scopes.slotOf?_eq he hf hss
    have hvalue := read?_eq he hf hss
    by_cases hlt : p.slot < ss.length
    · obtain ⟨-, -, rfl⟩ := scopes.frame hss
      have hword : (h.slotsOf f)[p.slot]? = some (h.word f (p.slot + 1)) :=
        getElem?_framesOf (by rwa [length_slotsOf] at hlt)
      exact .inr ⟨f, _, rfl, hss, hlt, hslot.trans (if_pos hlt), hvalue.trans hword⟩
    · exact .inl ⟨hvalue.trans (List.getElem?_eq_none (Nat.not_lt.1 hlt)), hslot.trans (if_neg hlt)⟩

theorem lookup_eq (he : σ.environments e = some fs) (p : Position) :
    h.lookup e p = (σ.read? e p).elim (.error (.invalidPosition p)) .ok := by
  rcases scopes.slotOf?_cases he p with ⟨hnone, hslot⟩ | ⟨f, ss, -, -, -, hslot, hsome⟩
  · rw [lookup, hnone, hslot, Option.elim_none]
  · rw [lookup, hsome, hslot, Option.elim_some]

/-! ## Steps -/

/-- Nodes that are kept hold what they held. -/
theorem keep {nodes : Address → Prop} (keeps : Keeps h k nodes) (hformed : k.Formed) (hclosed : k.Closed)
    (henvironment : ∀ e fs, σ.environments e = some fs → nodes e)
    (hframe : ∀ f ss, σ.frames f = some ss → nodes f) : Scopes k σ where
  formed := hformed
  closed := hclosed
  environment he := by
    obtain ⟨hin, htag, hframes⟩ := scopes.environment he
    have hkept := henvironment _ _ he
    exact ⟨keeps.inUse hkept hin, (keeps.tag hkept).trans htag,
      (keeps.framesOf hkept (scopes.size_environment he)).2.trans hframes⟩
  frame hf := by
    obtain ⟨hin, htag, hslots⟩ := scopes.frame hf
    have hkept := hframe _ _ hf
    exact ⟨keeps.inUse hkept hin, (keeps.tag hkept).trans htag,
      ((keeps.node _ hkept).slotsOf (scopes.size_frame hf)).trans hslots⟩
  known := scopes.known

theorem take (rooted : σ.Rooted h roots) (takes : Takes h roots k) : Scopes k σ := by
  have handles := takes.handles rooted.inUse
  have keeps := takes.keeps scopes.closed scopes.formed rooted.inUse
  exact scopes.keep keeps ((handles.operates scopes.closed scopes.formed).formed scopes.formed)
    (handles.closed scopes.closed scopes.formed) rooted.environment fun _ _ => scopes.live_frame rooted

/-- A node that could not be reached is neither an environment nor a frame of the store. -/
theorem fresh (rooted : σ.Rooted h roots) (ha : ¬ h.Live roots.get a) :
    σ.environments a = none ∧ σ.frames a = none := by
  refine ⟨Option.eq_none_iff_forall_ne_some.2 fun fs he => ha (rooted.environment a fs he),
    Option.eq_none_iff_forall_ne_some.2 fun ss hf => ha (scopes.live_frame rooted hf)⟩

theorem withFrame (ha : h.InUse a) (htag : h.tag a = .frame) (hslots : h.slotsOf a = ss) :
    Scopes h (σ.withFrame a ss) where
  formed := scopes.formed
  closed := scopes.closed
  environment := scopes.environment
  frame {f ts} hf := by
    by_cases heq : f = a
    · subst heq
      obtain rfl : ss = ts := by simpa [Store.withFrame] using hf
      exact ⟨ha, htag, hslots⟩
    · exact scopes.frame (by simpa [Store.withFrame, heq] using hf)
  known {e fs f} he hmem := by
    by_cases heq : f = a
    · exact ⟨ss, by simp [Store.withFrame, heq]⟩
    · obtain ⟨ts, hts⟩ := scopes.known he hmem
      exact ⟨ts, by simpa [Store.withFrame, heq] using hts⟩

theorem withEnvironment (ha : h.InUse a) (htag : h.tag a = .environment) (hframes : h.framesOf a = fs)
    (hknown : ∀ f ∈ fs, ∃ ss, σ.frames f = some ss) : Scopes h (σ.withEnvironment a fs) where
  formed := scopes.formed
  closed := scopes.closed
  environment {e gs} he := by
    by_cases heq : e = a
    · subst heq
      obtain rfl : fs = gs := by simpa [Store.withEnvironment] using he
      exact ⟨ha, htag, hframes⟩
    · exact scopes.environment (by simpa [Store.withEnvironment, heq] using he)
  frame := scopes.frame
  known {e gs f} he hmem := by
    by_cases heq : e = a
    · obtain rfl : fs = gs := by simpa [Store.withEnvironment, heq] using he
      exact hknown f hmem
    · exact scopes.known (by simpa [Store.withEnvironment, heq] using he) hmem

theorem within (within : τ.Within σ) : Scopes h τ where
  formed := scopes.formed
  closed := scopes.closed
  environment he := scopes.environment (within.environment _ _ he)
  frame hf := scopes.frame (within.frame _ _ hf)
  known he := within.known _ _ he _

/-- A variable is written. -/
theorem write {slot : Nat} (hss : σ.frames f = some ss) (hlt : slot < ss.length)
    (hformed : (h.setWord f (slot + 1) v).Formed) (hclosed : (h.setWord f (slot + 1) v).Closed) :
    Scopes (h.setWord f (slot + 1) v) (σ.write f slot v) := by
  obtain ⟨hin, htag, rfl⟩ := scopes.frame hss
  have hsize := scopes.size_frame hss
  rw [length_slotsOf] at hlt
  have ha := hin.toIsBlock
  have w := writes_setWord ha (i := slot + 1) (by omega) v
  have htags {b : Address} (hb : h.IsBlock b) : (h.setWord f (slot + 1) v).tag b = h.tag b :=
    congrArg Header.tag (header_setWord ha hb (Nat.le_add_left ..) (by omega) v)
  have hstays {b : Address} (hb : h.InUse b) : (h.setWord f (slot + 1) v).InUse b :=
    (InUse.congr w.size (htags hb.toIsBlock)).2 hb
  refine ⟨hformed, hclosed, fun {e fs} he => ?_, fun {g ts} hg => ?_, fun {e fs g} he hmem => ?_⟩
  · obtain ⟨hein, hetag, hframes⟩ := scopes.environment he
    have hne : e ≠ f := by
      rintro rfl
      simp [hetag] at htag
    exact ⟨hstays hein, (htags hein.toIsBlock).trans hetag,
      ((w.same hein.toIsBlock hne).framesOf (scopes.size_environment he)).2.trans hframes⟩
  · by_cases heq : g = f
    · subst heq
      obtain rfl : (h.slotsOf g).set slot v = ts := by simpa [Store.write, hss] using hg
      exact ⟨hstays hin, (htags ha).trans htag, slotsOf_setWord ha hsize (by omega)⟩
    · have hg : σ.frames g = some ts := by simpa [Store.write, heq] using hg
      obtain ⟨hgin, hgtag, hslots⟩ := scopes.frame hg
      exact ⟨hstays hgin, (htags hgin.toIsBlock).trans hgtag,
        ((w.same hgin.toIsBlock heq).slotsOf (scopes.size_frame hg)).trans hslots⟩
  · by_cases heq : g = f
    · exact ⟨(h.slotsOf f).set slot v, by simp [Store.write, heq, hss]⟩
    · obtain ⟨ts, hts⟩ := scopes.known he hmem
      exact ⟨ts, by simpa [Store.write, heq] using hts⟩

/-- A new environment is none that is used, and has its frames. -/
theorem extend (rooted : σ.Rooted h roots) (he : σ.environments e = some fs)
    (hf : σ.frames f = some ss) (hmade : Heap.extend e f roots h = .ok a k) :
    (σ.environments a = none ∧ σ.frames a = none) ∧ Scopes k σ ∧
      Scopes k (σ.withEnvironment a (fs ++ [f])) := by
  have hlive := rooted.environment e fs he
  obtain ⟨-, htag, rfl⟩ := scopes.environment he
  obtain ⟨-, hnew, ha, hkind, hframes⟩ :=
    (scopes.closed.keeps_extend scopes.formed rooted.inUse hlive).of_ok hmade
  have takes : Takes h roots k :=
    takes_of_ok (.extend e f hlive htag (scopes.live_frame rooted hf)) hmade
  have taken := scopes.take rooted takes
  refine ⟨scopes.fresh rooted hnew, taken, taken.withEnvironment ha hkind hframes fun g hg => ?_⟩
  rcases List.mem_append.1 hg with hg | hg
  · exact scopes.known he hg
  · obtain rfl := List.mem_singleton.1 hg
    exact ⟨ss, hf⟩

/-- An assignment writes one word of a frame. -/
theorem assign (he : σ.environments e = some fs) (hf : fs[p.frame]? = some f) (hss : σ.frames f = some ss)
    (hlt : p.slot < ss.length) (hv : h.InUse v) :
    Heap.assign e p v h = .ok () (h.setWord f (p.slot + 1) v) ∧
      Scopes (h.setWord f (p.slot + 1) v) (σ.write f p.slot v) := by
  obtain ⟨hin, htag, -⟩ := scopes.environment he
  have heq : Heap.assign e p v h = .ok () (h.setWord f (p.slot + 1) v) := by
    rw [Heap.assign, (scopes.slotOf?_eq he hf hss).trans (if_pos hlt)]
  have hformed := (scopes.formed.ensures_assign hin.toIsBlock htag p hv.toIsBlock).of_ok heq
  have hclosed := (scopes.closed.ensures_assign scopes.formed hin htag p hv).of_ok heq
  exact ⟨heq, scopes.write hss hlt hformed hclosed⟩

/-- Nothing is assigned if there is no such variable. -/
theorem assign_eq_error (he : σ.environments e = some fs) (hnone : σ.read? e p = none) (v : Address) :
    Heap.assign e p v h = .error (.invalidPosition p) h := by
  rcases scopes.slotOf?_cases he p with ⟨-, hslot⟩ | ⟨f, ss, -, -, -, -, hsome⟩
  · rw [Heap.assign, hslot]
  · rw [hsome] at hnone
    cases hnone

theorem assigned (he : σ.environments e = some fs) (hf : fs[p.frame]? = some f) (hv : h.InUse v)
    (hassign : Heap.assign e p v h = .ok () k) : Scopes k (σ.write f p.slot v) := by
  rcases scopes.slotOf?_cases he p with ⟨hnone, -⟩ | ⟨g, ss, hg, hss, hlt, -, -⟩
  · rw [scopes.assign_eq_error he hnone] at hassign
    cases hassign
  · obtain rfl : g = f := Option.some.inj (hg.symm.trans hf)
    obtain ⟨hok, written⟩ := scopes.assign he hf hss hlt hv
    rw [hok] at hassign
    cases hassign
    exact written

end Scopes

/-! ## What happened -/

/-- What happened is in the heap. -/
theorem Storing.scopes {σ : Store} (storing : Storing h σ) : Scopes h σ := by
  induction storing with
  | start handled =>
    obtain ⟨hf, hc⟩ := handled.formed_closed
    refine ⟨hf, hc, fun {e fs} he => ?_, fun {f ss} hf => ?_, fun {e fs f} he _ => ?_⟩
    · cases he
    · cases hf
    · cases he
  | newFrame slots _ rooted hmade ih =>
    obtain ⟨-, -, ha, htag, hslots⟩ :=
      (ih.closed.keeps_newFrame ih.formed rooted.inUse slots).of_ok hmade
    exact (ih.take rooted (takes_of_ok (.newFrame slots) hmade)).withFrame ha htag hslots
  | emptyEnvironment _ rooted hmade ih =>
    obtain ⟨-, -, ha, htag, hframes⟩ :=
      (ih.closed.keeps_emptyEnvironment ih.formed rooted.inUse).of_ok hmade
    exact (ih.take rooted (takes_of_ok .emptyEnvironment hmade)).withEnvironment ha htag hframes
      fun f hf => absurd hf (List.not_mem_nil)
  | extend _ rooted he hf hmade ih =>
    exact (ih.extend rooted he hf hmade).2.2
  | assign _ he hf hv hassign ih => exact ih.assigned he hf hv hassign
  | take _ rooted takes ih => exact ih.take rooted takes
  | forget _ within ih => exact ih.within within

/-! ## The law -/

/-- What an assignment does to all variables and to all words. -/
structure Assigned (h k : Heap) (σ : Store) (f : Address) (slot : Nat) (v : Address) : Prop where
  /-- The variable has the value in every environment with the frame, and the others are as they were. -/
  lookup : ∀ e fs, σ.environments e = some fs → ∀ q,
    k.lookup e q = if fs[q.frame]? = some f ∧ q.slot = slot then .ok v else h.lookup e q
  /-- It is a word of the frame, and all other words of nodes are as they were. -/
  word : ∀ b, h.IsBlock b → ∀ i < nodeSize,
    k.word b i = if b = f ∧ i = slot + 1 then v else h.word b i

/-- What an environment with one frame more is. -/
structure Extended (h k : Heap) (σ : Store) (a e f : Address) : Prop where
  /-- It is a node that was not used. -/
  fresh : σ.environments a = none ∧ σ.frames a = none
  /-- In the environments that are used all variables are as they were. -/
  lookup : ∀ e fs, σ.environments e = some fs → ∀ q, k.lookup e q = h.lookup e q
  /-- It has the frames of the old one and one more. -/
  framesOf : k.framesOf a = h.framesOf e ++ [f]
  /-- In front of this one it has the same variables. -/
  below : ∀ q, q.frame < h.frameCount e → k.lookup a q = h.lookup e q

/-- Environments are lists of shared frames. -/
structure Scoping (h : Heap) (σ : Store) : Prop where
  /-- An environment has its frames. -/
  framesOf : ∀ e fs, σ.environments e = some fs → h.framesOf e = fs
  /-- A variable has the value that it was assigned last, or is unassigned. -/
  lookup : ∀ e fs, σ.environments e = some fs → ∀ p,
    h.lookup e p = (σ.read? e p).elim (.error (.invalidPosition p)) .ok
  /-- There is none at a position if the index of the frame is out of range, or that of the slot. -/
  range : ∀ e fs, σ.environments e = some fs → ∀ p, σ.read? e p = none ↔
    h.frameCount e ≤ p.frame ∨
      ∃ f ss, fs[p.frame]? = some f ∧ σ.frames f = some ss ∧ ss.length ≤ p.slot
  /-- Then an assignment fails, and changes nothing. -/
  refused : ∀ e fs, σ.environments e = some fs → ∀ p v, σ.read? e p = none →
    assign e p v h = .error (.invalidPosition p) h
  /-- Otherwise it assigns one variable. -/
  assigned : ∀ e fs, σ.environments e = some fs → ∀ p v, h.InUse v → σ.read? e p ≠ none →
    ∃ k f, assign e p v h = .ok () k ∧ fs[p.frame]? = some f ∧ Assigned h k σ f p.slot v
  /-- An environment is extended by a frame. -/
  extended : ∀ e fs, σ.environments e = some fs → ∀ f ss, σ.frames f = some ss →
    ∀ roots, σ.Rooted h roots → ∀ a k, extend e f roots h = .ok a k → Extended h k σ a e f

namespace Scopes

variable {σ : Store} (scopes : Scopes h σ)
include scopes

theorem read?_eq_none_iff (he : σ.environments e = some fs) (p : Position) :
    σ.read? e p = none ↔ h.frameCount e ≤ p.frame ∨
      ∃ f ss, fs[p.frame]? = some f ∧ σ.frames f = some ss ∧ ss.length ≤ p.slot := by
  obtain ⟨-, -, hframes⟩ := scopes.environment he
  rw [← length_framesOf, hframes, ← List.getElem?_eq_none_iff]
  cases hf : fs[p.frame]? with
  | none => simp [read?_eq_none he hf]
  | some f =>
    obtain ⟨ss, hss⟩ := scopes.known he (List.mem_of_getElem? hf)
    rw [read?_eq he hf hss, List.getElem?_eq_none_iff]
    simp [hss]

theorem ensures_assigned (he : σ.environments e = some fs) (hv : h.InUse v)
    (hsome : σ.read? e p ≠ none) :
    ∃ k f, Heap.assign e p v h = .ok () k ∧ fs[p.frame]? = some f ∧ Assigned h k σ f p.slot v := by
  rcases scopes.slotOf?_cases he p with ⟨hnone, -⟩ | ⟨f, ss, hf, hss, hlt, -, -⟩
  · exact absurd hnone hsome
  obtain ⟨hok, written⟩ := scopes.assign he hf hss hlt hv
  obtain ⟨hin, -, hslots⟩ := scopes.frame hss
  have hsize := scopes.size_frame hss
  have hlt' : p.slot < h.size f - 1 := by rwa [← length_slotsOf, hslots]
  refine ⟨_, f, hok, hf, fun g gs hg q => ?_, fun b hb i hi => ?_⟩
  · rw [written.lookup_eq hg, scopes.lookup_eq hg, read?_write hss hlt hg]
    split <;> rfl
  · exact word_setWord_block hin.toIsBlock hb (by omega) hi v

theorem extended (rooted : σ.Rooted h roots) (he : σ.environments e = some fs)
    (hf : σ.frames f = some ss) (hmade : Heap.extend e f roots h = .ok a k) :
    Extended h k σ a e f := by
  obtain ⟨hnew, taken, made⟩ := scopes.extend rooted he hf hmade
  have hself : (σ.withEnvironment a (fs ++ [f])).environments a = some (fs ++ [f]) := by
    simp [Store.withEnvironment]
  obtain ⟨-, -, hframes⟩ := scopes.environment he
  refine ⟨hnew, fun g gs hg q => ?_, ?_, fun q hq => ?_⟩
  · rw [taken.lookup_eq hg, scopes.lookup_eq hg]
  · rw [hframes, (made.environment hself).2.2]
  · rw [made.lookup_eq hself, scopes.lookup_eq he]
    have hlt : q.frame < fs.length := by rwa [← hframes, length_framesOf]
    have hsame : (fs ++ [f])[q.frame]? = fs[q.frame]? := List.getElem?_append_left hlt
    have hvalue : (σ.withEnvironment a (fs ++ [f])).read? a q = σ.read? e q := by
      rw [read?, read?, hself, he]
      simp only [Option.bind_eq_bind, Option.bind_some, hsame]
      rfl
    rw [hvalue]

end Scopes

/-- Whatever happened, environments are lists of shared frames. -/
theorem Storing.scoping {σ : Store} (storing : Storing h σ) : Scoping h σ := by
  have scopes := storing.scopes
  exact {
    framesOf := fun e fs he => (scopes.environment he).2.2
    lookup := fun e fs he => scopes.lookup_eq he
    range := fun e fs he => scopes.read?_eq_none_iff he
    refused := fun e fs he p v hnone => scopes.assign_eq_error he hnone v
    assigned := fun e fs he p v hv hsome => scopes.ensures_assigned he hv hsome
    extended := fun e fs he f ss hf roots rooted a k hmade => scopes.extended rooted he hf hmade }

/-! ## An example -/

/-- Roots that do not depend on what is allocated. -/
def rootsOf (nodes : List Address) : Roots := ⟨fun _ => nodes⟩

/-- An environment without frames, one with a frame, and a number. -/
def numbered : Heap :=
  let outer := leaves (emptyEnvironment noRoots) ten
  let frame := leaves (newFrame 1 (rootsOf [50])) outer
  let inner := leaves (extend 50 60 (rootsOf [50, 60])) frame
  leaves (newNumber ⟨0x3ff0000000000000⟩ (rootsOf [50, 70])) inner

/-- The number is assigned to the variable, and garbage is collected. -/
def nested : Heap := (leaves (assign 70 ⟨0, 0⟩ 80) numbered).collect [50, 70]

/-- The environments and the frame, of which the variable is unassigned. -/
def nestedStore : Store :=
  ((empty.withEnvironment 50 []).withFrame 60 [unassigned]).withEnvironment 70 [60]

theorem inUse_rootsOf {b : Address} (ha : h.InUse a) (hb : h.InUse b) :
    ∀ c ∈ (rootsOf [a, b]).get, h.InUse c := by
  simpa [rootsOf, Thunk.get] using ⟨ha, hb⟩

theorem live_rootsOf {nodes : List Address} (ha : a ∈ nodes) : h.Live (rootsOf nodes).get a := .root ha

/-- The environments are roots, and one of them has the frame. -/
theorem rooted_nested (houter : h.InUse 50) (hinner : h.InUse 70) (hchild : 60 ∈ children h.words 70) :
    nestedStore.Rooted h (rootsOf [50, 70]) := by
  have hlive : h.Live (rootsOf [50, 70]).get 70 := live_rootsOf (by decide)
  exact (((Rooted.of_empty (inUse_rootsOf houter hinner)).withEnvironment rfl
    (live_rootsOf (by decide))).withFrame (.child hlive hchild)).withEnvironment rfl hlive

theorem storing_numbered : Storing numbered nestedStore := by
  have hten : Handled ten := .create (create_eq (by decide +kernel))
  have hnone : ∀ b ∈ noRoots.get, ten.InUse b := fun b hb => nomatch hb
  have outer := (Storing.start hten).emptyEnvironment (a := 50) (.of_empty hnone)
    (eq_ok_leaves (by decide +kernel))
  have houter := (outer.scopes.environment (e := 50) rfl).1
  have kept : (empty.withEnvironment 50 []).Rooted _ (rootsOf [50]) :=
    (Rooted.of_empty (by simpa [rootsOf, Thunk.get] using houter)).withEnvironment rfl
      (live_rootsOf (by decide))
  have frame := outer.newFrame (a := 60) 1 kept (eq_ok_leaves (by decide +kernel))
  have hboth := inUse_rootsOf (frame.scopes.environment (e := 50) rfl).1
    (frame.scopes.frame (f := 60) rfl).1
  have kept : ((empty.withEnvironment 50 []).withFrame 60 [unassigned]).Rooted _ (rootsOf [50, 60]) :=
    ((Rooted.of_empty hboth).withEnvironment rfl (live_rootsOf (by decide))).withFrame
      (live_rootsOf (by decide))
  have inner : Storing _ nestedStore := frame.extend (a := 70) (e := 50) (f := 60) kept rfl rfl
    (eq_ok_leaves (by decide +kernel))
  have kept := rooted_nested (inner.scopes.environment (e := 50) rfl).1
    (inner.scopes.environment (e := 70) rfl).1 (by decide +kernel)
  exact inner.take kept (.newNumber ⟨0x3ff0000000000000⟩)

theorem storing_nested : Storing nested (nestedStore.write 60 0 80) := by
  have hnumber : numbered.InUse 80 := ⟨⟨by decide, by decide +kernel⟩, by decide +kernel⟩
  have hassign : assign 70 ⟨0, 0⟩ 80 numbered = .ok () (leaves (assign 70 ⟨0, 0⟩ 80) numbered) := by
    rw [leaves, (storing_numbered.scopes.assign (p := ⟨0, 0⟩) (e := 70) rfl rfl rfl Nat.one_pos hnumber).1]
  have assigned := storing_numbered.assign (e := 70) (p := ⟨0, 0⟩) rfl rfl hnumber hassign
  have kept := rooted_nested (assigned.scopes.environment (e := 50) rfl).1
    (assigned.scopes.environment (e := 70) rfl).1 (by decide +kernel)
  exact assigned.take kept.write .collect

theorem scoping_nested : Storing nested (nestedStore.write 60 0 80) ∧
    Scoping nested (nestedStore.write 60 0 80) ∧ nested.lookup 70 ⟨0, 0⟩ = .ok 80 := by
  have scoping := storing_nested.scoping
  exact ⟨storing_nested, scoping, scoping.lookup 70 _ rfl _⟩

end ChannelMachine.Heap
