import Mathlib.Data.List.Forall2
import ChannelMachine.Proofs.Heap.Updating
import ChannelMachine.Proofs.Machine.Sound
import ChannelMachine.Proofs.Meaning.Evaluation

/-!
# What nodes stand for

The evaluator numbers frames and functions and never frees one; the machine gives each a node and frees
those that are not live.  A `Placing` says which node stands for which item, and `Placed` that the nodes
look as the store of the evaluator says: a frame holds the values of its variables, and a function
starts where the code of its body does.

Only items whose nodes are live stay placed when the heap grows (`Placed.keep`).  No item is lost that
the program could still get at, since what a live node leads to is live.
-/

namespace ChannelMachine

/-- A number that is not NaN is the same as itself. -/
theorem Number.same_self {x : Number} (hx : x.isNaN = false) : x.same x = true := by
  simp [Number.same, hx]

namespace Heap

/-- A heap that keeps some nodes and all that they lead to. -/
structure KeepsAll (h k : Heap) (nodes : Address → Prop) : Prop extends Keeps h k nodes where
  /-- The children of these nodes are among them. -/
  child : ∀ a i : Nat, nodes a → h.tag a ≠ .channel → (h.header a).childRange.1 ≤ i →
    i < (h.header a).childRange.2 → nodes (h.word a i)

/-- The environment that a function keeps is in use. -/
theorem Sound.inUse_closure {h : Heap} (hs : h.Sound) {a : Nat} (ha : h.InUse a)
    (htag : h.tag a = .closure) : h.InUse (h.word a 2) := by
  have hroots : ∀ b ∈ [a], h.InUse b := fun b hb => List.mem_singleton.1 hb ▸ ha
  exact hs.inUse_of_live hroots
    ((hs.word_closure ha htag).2 [a] (.root (List.mem_cons_self ..)))

theorem Grows.keepsAll {h k : Heap} {roots : List Address} (g : Grows h k roots) (hs : h.Sound)
    (hroots : ∀ a ∈ roots, h.InUse a) : KeepsAll h k (h.Live roots) :=
  ⟨g.toKeeps, fun _ _ ha ht hle hlt => hs.live_child hroots ha ht hle hlt⟩

theorem Alike.keepsAll {h k : Heap} (alike : Alike h k) : KeepsAll h k fun _ => True :=
  ⟨alike.keeps _, fun _ _ _ _ _ _ => trivial⟩

end Heap

namespace Source

/-! ## Worlds -/

/-- What there is besides the syntax, and where the code of each function starts. -/
structure World where
  /-- The variables, the functions, and what has been printed. -/
  store : Store
  /-- The index at which the code of a function starts. -/
  entries : List Nat

namespace World

/-- A world with all frames and functions of another one. -/
structure Extends (w w' : World) : Prop where
  /-- The frames. -/
  frame : ∀ (i : Nat) slots, w.store.frames[i]? = some slots → w'.store.frames[i]? = some slots
  /-- The functions. -/
  function : ∀ (i : Nat) f, w.store.functions[i]? = some f → w'.store.functions[i]? = some f
  /-- Their code. -/
  entry : ∀ (i : Nat) pc, w.entries[i]? = some pc → w'.entries[i]? = some pc

end World

/-! ## Items and their nodes -/

/-- What the evaluator numbers, and the builtins. -/
inductive Item where
  /-- A frame. -/
  | frame (number : Nat)
  /-- A function. -/
  | function (number : Nat)
  /-- A builtin. -/
  | builtin (action : Builtin)
deriving DecidableEq

/-- Which node stands for an item. -/
abbrev Placing := Item → Address → Prop

namespace Placing

/-- The items whose nodes are among the given ones. -/
def within (ρ : Placing) (nodes : Address → Prop) : Placing := fun x a => ρ x a ∧ nodes a

/-- One item more. -/
def add (ρ : Placing) (x : Item) (a : Address) : Placing := fun y b => ρ y b ∨ (y = x ∧ b = a)

/-- A node holds a value. -/
def Shows (ρ : Placing) (h : Heap) : Datum → Address → Prop
  | .number x, a => h.number? a = some x
  | .bool b, a => a = Heap.boolean b
  | .text s, a => h.text? a = some s
  | .null, a => a = Heap.null
  | .undefined, a => a = Heap.undefined
  | .builtin b, a => ρ (.builtin b) a
  | .function i, a => ρ (.function i) a

/-- A word of a frame holds a variable. -/
def ShowsVariable (ρ : Placing) (h : Heap) : Option Datum → Address → Prop
  | some v, a => ρ.Shows h v a
  | none, a => a = Heap.unassigned

/-- A node is the frame of a layer, with a slot for each of its names. -/
def Places (ρ : Placing) (h : Heap) (layer : Layer) (a : Address) : Prop :=
  ρ (.frame layer.frame) a ∧ h.size a = layer.names.length + 1

/-- A node is an environment. -/
structure Sees (ρ : Placing) (h : Heap) (environment : Environment) (a : Address) : Prop where
  /-- It is of this kind. -/
  tag : h.tag a = .environment
  /-- It leads to the frames, the outermost first. -/
  frames : List.Forall₂ (ρ.Places h) environment.reverse (h.framesOf a)

/-- A node looks as the world says of an item. -/
def Holds (ρ : Placing) (w : World) (h : Heap) : Item → Address → Prop
  | .frame i, a => ∃ slots, w.store.frames[i]? = some slots ∧ h.tag a = .frame ∧
      h.size a = slots.length + 1 ∧
      ∀ (j : Nat) (x : Option Datum), slots[j]? = some x → ρ.ShowsVariable h x (h.word a (j + 1))
  | .function i, a => ∃ f, w.store.functions[i]? = some f ∧ h.tag a = .closure ∧
      h.word a 1 = f.parameters.length ∧ ρ.Sees h f.environment (h.word a 2) ∧
      w.entries[i]? = some (h.payload a).toNat
  | .builtin b, a => h.tag a = .builtin ∧
      standardBuiltins[(h.payload a).toNat]? = some b.entry

end Placing

/-- The nodes of the items look as the world says, and no two items share a node. -/
structure Placed (w : World) (ρ : Placing) (h : Heap) : Prop where
  /-- An item has one node. -/
  right_unique : ∀ x a b, ρ x a → ρ x b → a = b
  /-- A node stands for one item. -/
  left_unique : ∀ x y a, ρ x a → ρ y a → x = y
  /-- The nodes are in use. -/
  inUse : ∀ x a, ρ x a → h.InUse a
  /-- They look as the world says. -/
  holds : ∀ x a, ρ x a → ρ.Holds w h x a

/-! ## More items -/

namespace Placing

variable {ρ σ : Placing} {h : Heap} {a : Address}

theorem Shows.mono {v : Datum} (hv : ρ.Shows h v a) (hρ : ∀ x a, ρ x a → σ x a) : σ.Shows h v a := by
  cases v with
  | builtin b => exact hρ _ _ hv
  | function i => exact hρ _ _ hv
  | _ => exact hv

theorem ShowsVariable.mono {x : Option Datum} (hx : ρ.ShowsVariable h x a)
    (hρ : ∀ x a, ρ x a → σ x a) : σ.ShowsVariable h x a := by
  cases x with
  | none => exact hx
  | some v => exact Shows.mono hx hρ

theorem Sees.mono {environment : Environment} (sees : ρ.Sees h environment a)
    (hρ : ∀ x a, ρ x a → σ x a) : σ.Sees h environment a :=
  ⟨sees.tag, sees.frames.imp fun _ _ places => ⟨hρ _ _ places.1, places.2⟩⟩

end Placing

theorem Placing.Holds.mono {ρ σ : Placing} {w w' : World} {h : Heap} {x : Item} {a : Address}
    (holds : ρ.Holds w h x a) (hρ : ∀ x a, ρ x a → σ x a) (more : w.Extends w') :
    σ.Holds w' h x a := by
  cases x with
  | frame i =>
    obtain ⟨slots, hi, htag, hsize, hword⟩ := holds
    exact ⟨slots, more.frame i _ hi, htag, hsize, fun j x hx => (hword j x hx).mono hρ⟩
  | function i =>
    obtain ⟨f, hi, htag, harity, sees, hentry⟩ := holds
    exact ⟨f, more.function i f hi, htag, harity, sees.mono hρ, more.entry i _ hentry⟩
  | builtin b => exact holds

theorem Placed.add {w w' : World} {ρ : Placing} {h : Heap} (p : Placed w ρ h) (more : w.Extends w')
    {x : Item} {a : Address} (ha : h.InUse a) (hx : ∀ b, ¬ρ x b) (hnew : ∀ y, ¬ρ y a)
    (holds : (ρ.add x a).Holds w' h x a) : Placed w' (ρ.add x a) h where
  right_unique := by
    rintro y b c (hb | ⟨rfl, rfl⟩) (hc | ⟨hyx, rfl⟩)
    · exact p.right_unique y b c hb hc
    · exact absurd (hyx ▸ hb) (hx b)
    · exact absurd hc (hx c)
    · rfl
  left_unique := by
    rintro y z b (hy | ⟨rfl, rfl⟩) (hz | ⟨rfl, hb⟩)
    · exact p.left_unique y z b hy hz
    · exact absurd (hb ▸ hy) (hnew y)
    · exact absurd hz (hnew z)
    · rfl
  inUse := by
    rintro y b (hy | ⟨-, rfl⟩)
    · exact p.inUse y b hy
    · exact ha
  holds := by
    rintro y b (hy | ⟨rfl, rfl⟩)
    · exact (p.holds y b hy).mono (fun _ _ => .inl) more
    · exact holds

/-! ## What is kept -/

/-- A relation between two lists may be weakened where the second one has its elements. -/
theorem forall₂_imp_mem {α β : Type} {R S : α → β → Prop} {l : List α} {l' : List β}
    (h : List.Forall₂ R l l') (hS : ∀ x y, y ∈ l' → R x y → S x y) : List.Forall₂ S l l' := by
  induction h with
  | nil => exact .nil
  | cons hxy _ ih =>
    exact .cons (hS _ _ (List.mem_cons_self ..) hxy)
      (ih fun x y hy => hS x y (List.mem_cons_of_mem _ hy))

section Keep

variable {w : World} {ρ : Placing} {h k : Heap} {nodes : Address → Prop} {a : Address}

theorem Placing.Shows.keep {v : Datum} (hv : ρ.Shows h v a) (keeps : Heap.KeepsAll h k nodes)
    (ha : nodes a) : (ρ.within nodes).Shows k v a := by
  cases v with
  | number x => exact (keeps.node a ha).number?.trans hv
  | text s => exact (keeps.text a ha).trans hv
  | builtin b => exact ⟨hv, ha⟩
  | function i => exact ⟨hv, ha⟩
  | _ => exact hv

theorem Placing.ShowsVariable.keep {x : Option Datum} (hx : ρ.ShowsVariable h x a)
    (keeps : Heap.KeepsAll h k nodes) (ha : nodes a) : (ρ.within nodes).ShowsVariable k x a := by
  cases x with
  | none => exact hx
  | some v => exact Shows.keep hx keeps ha

theorem Placing.Sees.keep {environment : Environment} (sees : ρ.Sees h environment a)
    (keeps : Heap.KeepsAll h k nodes) (ha : nodes a) (hsound : h.NodeSound a) :
    (ρ.within nodes).Sees k environment a := by
  have hrange := Heap.childRange_environment sees.tag
  refine ⟨(keeps.tag ha).trans sees.tag, ?_⟩
  rw [((keeps.node a ha).framesOf hsound.le).2]
  refine forall₂_imp_mem sees.frames fun layer frame hframe places => ?_
  obtain ⟨i, hi, rfl⟩ := List.mem_map.1 hframe
  have hlt : i < h.size a - 1 := List.mem_range.1 hi
  have hnode : nodes (h.word a (i + 1)) := by
    refine keeps.child a (i + 1) ha (by rw [sees.tag]; decide) ?_ ?_
    · rw [hrange]
      exact Nat.le_add_left ..
    · rw [hrange]
      exact Nat.add_lt_of_lt_sub hlt
  exact ⟨⟨places.1, hnode⟩, (keeps.node _ hnode).size.trans places.2⟩

theorem Placing.Holds.keep {x : Item} (holds : ρ.Holds w h x a)
    (keeps : Heap.KeepsAll h k nodes) (ha : nodes a) (hs : h.Sound) (hin : h.InUse a) :
    (ρ.within nodes).Holds w k x a := by
  have same := keeps.node a ha
  have hsound := hs.typed a hin
  cases x with
  | frame i =>
    obtain ⟨slots, hi, htag, hsize, hword⟩ := holds
    refine ⟨slots, hi, same.tag.trans htag, same.size.trans hsize, fun j x hx => ?_⟩
    have hj : j + 1 < h.size a := by
      have := (List.getElem?_eq_some_iff.1 hx).1
      omega
    have hrange := Heap.childRange_frame htag
    have hnode : nodes (h.word a (j + 1)) := by
      refine keeps.child a (j + 1) ha (by rw [htag]; decide) ?_ ?_
      · rw [hrange]
        exact Nat.le_add_left ..
      · rw [hrange]
        exact hj
    rw [same.word (j + 1) (Nat.le_add_left ..) (Nat.lt_of_lt_of_le hj hsound.le)]
    exact (hword j x hx).keep keeps hnode
  | function i =>
    obtain ⟨f, hi, htag, harity, sees, hentry⟩ := holds
    have hrange : (h.header a).childRange = (2, 3) := Heap.childRange_of_tag htag
    have hnode : nodes (h.word a 2) :=
      keeps.child a 2 ha (by rw [htag]; decide) (Nat.le_of_eq (congrArg Prod.fst hrange))
        (by rw [hrange]; decide)
    refine ⟨f, hi, same.tag.trans htag, (same.word 1 (by decide) (by decide)).trans harity, ?_, ?_⟩
    · rw [same.word 2 (by decide) (by decide)]
      exact sees.keep keeps hnode (hs.typed _ (hs.inUse_closure hin htag))
    · rw [same.payload]
      exact hentry
  | builtin b =>
    refine ⟨same.tag.trans holds.1, ?_⟩
    rw [same.payload]
    exact holds.2

/-- The items whose nodes are kept stay placed. -/
theorem Placed.keep (p : Placed w ρ h) (hs : h.Sound) (keeps : Heap.KeepsAll h k nodes) :
    Placed w (ρ.within nodes) k where
  right_unique := fun x a b ha hb => p.right_unique x a b ha.1 hb.1
  left_unique := fun x y a hx hy => p.left_unique x y a hx.1 hy.1
  inUse := fun x a ha => keeps.inUse ha.2 (p.inUse x a ha.1)
  holds := fun x a ha => (p.holds x a ha.1).keep keeps ha.2 hs (p.inUse x a ha.1)

end Keep

/-! ## Reading values -/

namespace Datum

/-- The number that a value is. -/
def number? : Datum → Option Number
  | .number x => some x
  | _ => none

/-- The boolean that a value is. -/
def bool? : Datum → Option Bool
  | .bool b => some b
  | _ => none

/-- The text that a value is. -/
def text? : Datum → Option String
  | .text s => some s
  | _ => none

theorem isValue_tag (v : Datum) : v.tag.isValue = true := by
  cases v with
  | bool b => cases b <;> rfl
  | _ => rfl

theorem tag_ne_number {v : Datum} (hv : v.number? = none) : v.tag ≠ .number := by
  cases v with
  | number x => cases hv
  | bool b => cases b <;> exact Tag.noConfusion
  | _ => exact Tag.noConfusion

theorem tag_ne_string {v : Datum} (hv : v.text? = none) : v.tag ≠ .string := by
  cases v with
  | text s => cases hv
  | bool b => cases b <;> exact Tag.noConfusion
  | _ => exact Tag.noConfusion

end Datum

namespace Placed

variable {w : World} {ρ : Placing} {h : Heap} {a b : Address} {v u : Datum}

theorem tag (p : Placed w ρ h) (hs : h.Sound) (hv : ρ.Shows h v a) : h.tag a = v.tag := by
  cases v with
  | number x =>
    have hx : h.number? a = some x := hv
    unfold Heap.number? at hx
    split at hx
    next htag => exact htag
    next => cases hx
  | bool b =>
    obtain rfl : a = Heap.boolean b := hv
    rw [hs.tag_boolean]
    cases b <;> rfl
  | text t =>
    have ht : h.text? a = some t := hv
    unfold Heap.text? at ht
    split at ht
    next htag => exact htag
    next => cases ht
  | null =>
    obtain rfl : a = Heap.null := hv
    exact hs.tag_null
  | undefined =>
    obtain rfl : a = Heap.undefined := hv
    exact hs.tag_undefined
  | builtin b => exact (p.holds _ _ hv).1
  | function i =>
    obtain ⟨f, -, htag, -⟩ := p.holds _ _ hv
    exact htag

theorem number? (p : Placed w ρ h) (hs : h.Sound) (hv : ρ.Shows h v a) :
    h.number? a = v.number? := by
  have htag := p.tag hs hv
  cases v with
  | number x => exact hv
  | _ =>
    refine if_neg fun heq => ?_
    rw [htag] at heq
    exact absurd heq (Datum.tag_ne_number rfl)

theorem text? (p : Placed w ρ h) (hs : h.Sound) (hv : ρ.Shows h v a) : h.text? a = v.text? := by
  have htag := p.tag hs hv
  cases v with
  | text s => exact hv
  | _ =>
    refine if_neg fun heq => ?_
    rw [htag] at heq
    exact absurd heq (Datum.tag_ne_string rfl)

theorem bool? (p : Placed w ρ h) (hs : h.Sound) (hv : ρ.Shows h v a) : h.bool? a = v.bool? := by
  unfold Heap.bool?
  rw [p.tag hs hv]
  cases v with
  | bool b => cases b <;> rfl
  | _ => rfl

theorem unbox (p : Placed w ρ h) (hs : h.Sound) (hv : ρ.Shows h v a) : h.unbox a = v.shown := by
  have hnumber := p.number? hs hv
  have htext := p.text? hs hv
  unfold Heap.unbox
  rw [p.tag hs hv]
  cases v with
  | number x =>
    simp only [Datum.tag, hnumber]
    rfl
  | text s =>
    simp only [Datum.tag, htext]
    rfl
  | bool b => cases b <;> rfl
  | builtin b =>
    obtain ⟨-, hentry⟩ := p.holds _ _ hv
    rw [standardBuiltins, List.getElem?_map, Option.map_eq_some_iff] at hentry
    obtain ⟨b', hb', heq⟩ := hentry
    obtain rfl : b' = b := congrArg BuiltinEntry.action heq
    simp only [Datum.tag, Datum.shown, hb', Option.map_some, Option.getD_some]
  | _ => rfl

theorem display (p : Placed w ρ h) (hs : h.Sound) (hv : ρ.Shows h v a) :
    h.display a = v.display :=
  congrArg Value.display (p.unbox hs hv)

/-- Two nodes that are the same hold the same value. -/
theorem datum_eq (p : Placed w ρ h) (hs : h.Sound) (hv : ρ.Shows h v a) (hu : ρ.Shows h u a) :
    v = u := by
  have htag := (p.tag hs hv).symm.trans (p.tag hs hu)
  have hnumber := (p.number? hs hv).symm.trans (p.number? hs hu)
  have htext := (p.text? hs hv).symm.trans (p.text? hs hu)
  have hbool := (p.bool? hs hv).symm.trans (p.bool? hs hu)
  cases v with
  | number x =>
    cases u with
    | number y => exact congrArg Datum.number (Option.some.inj hnumber)
    | _ => cases hnumber
  | text s =>
    cases u with
    | text t => exact congrArg Datum.text (Option.some.inj htext)
    | _ => cases htext
  | bool x =>
    cases u with
    | bool y => exact congrArg Datum.bool (Option.some.inj hbool)
    | _ => cases hbool
  | builtin b =>
    cases u with
    | builtin c => cases p.left_unique _ _ _ hv hu; rfl
    | bool y => cases hbool
    | _ => cases htag
  | function i =>
    cases u with
    | function j => cases p.left_unique _ _ _ hv hu; rfl
    | bool y => cases hbool
    | _ => cases htag
  | null =>
    cases u with
    | null => rfl
    | bool y => cases hbool
    | _ => cases htag
  | undefined =>
    cases u with
    | undefined => rfl
    | bool y => cases hbool
    | _ => cases htag

/-- Two values that are no numbers are held by the same node if they are the same. -/
theorem address_eq (p : Placed w ρ h) (hs : h.Sound) (ha : h.IsBlock a) (hb : h.IsBlock b)
    (hv : ρ.Shows h v a) (hu : ρ.Shows h v b) (hnumber : v.number? = none) : a = b := by
  cases v with
  | number x => cases hnumber
  | text s =>
    have hnode := hs.toInterned.strings_of_text? ha hv
    rw [hs.toInterned.strings_of_text? hb hu] at hnode
    exact (Option.some.inj hnode).symm
  | builtin b => exact p.right_unique _ _ _ hv hu
  | function i => exact p.right_unique _ _ _ hv hu
  | _ => exact Eq.trans hv (Eq.symm hu)

/-- The machine compares values as the evaluator does. -/
theorem sameValue (p : Placed w ρ h) (hs : h.Sound) (ha : h.IsBlock a) (hb : h.IsBlock b)
    (hv : ρ.Shows h v a) (hu : ρ.Shows h u b) {same : Bool} (hsame : v.same u = .ok same) :
    h.sameValue a b = same := by
  have hnumber := p.number? hs hv
  have hnumber' := p.number? hs hu
  unfold Heap.sameValue
  rw [hnumber, hnumber']
  split
  next hab =>
    obtain rfl := p.datum_eq hs hv (hab ▸ hu)
    cases v with
    | number x =>
      simp only [Datum.same, Bool.and_self] at hsame
      split at hsame
      next => cases hsame
      next hnan =>
        rw [← Except.ok.inj hsame]
        exact (Number.same_self (by simpa using hnan)).symm
    | _ =>
      rw [← Except.ok.inj hsame]
      simp
  next hab =>
    cases v with
    | number x =>
      cases u with
      | number y =>
        simp only [Datum.same] at hsame
        split at hsame
        next => cases hsame
        next => exact Except.ok.inj hsame
      | _ =>
        rw [← Except.ok.inj hsame]
        rfl
    | _ =>
      rw [← Except.ok.inj hsame]
      symm
      refine decide_eq_false fun heq => hab (p.address_eq hs ha hb hv ?_ rfl)
      rw [heq]
      exact hu

end Placed

/-! ## Assignments -/

/-- The world after an assignment. -/
def World.assign (w : World) (frame slot : Nat) (v : Datum) : World :=
  { w with store := w.store.assign frame slot v }

section Assign

variable {w : World} {ρ : Placing} {h k : Heap} {frame a b : Address} {i j : Nat} {v : Datum}

theorem Placing.Shows.written (hv : ρ.Shows h v b) (p : Placed w ρ h) (hs : h.Sound)
    (writes : Heap.Writes h k frame) (htag : h.tag frame = .frame) (hb : h.IsBlock b) :
    ρ.Shows k v b := by
  have hne : b ≠ frame := by
    rintro rfl
    have hvalue := v.isValue_tag
    rw [← p.tag hs hv, htag] at hvalue
    cases hvalue
  have same := writes.same hb hne
  cases v with
  | number x => exact same.number?.trans hv
  | text t => exact (writes.text? hb hne).trans hv
  | _ => exact hv

theorem Placing.Sees.written {environment : Environment} (sees : ρ.Sees h environment b)
    (p : Placed w ρ h) (hs : h.Sound) (writes : Heap.Writes h k frame)
    (htag : h.tag frame = .frame) (hsize : k.size frame = h.size frame) (hb : h.InUse b) :
    ρ.Sees k environment b := by
  have hne : b ≠ frame := by
    rintro rfl
    have heq := sees.tag.symm.trans htag
    cases heq
  have same := writes.same hb.toIsBlock hne
  refine ⟨same.tag.trans sees.tag, ?_⟩
  rw [(same.framesOf (hs.typed b hb).le).2]
  refine sees.frames.imp fun layer node places => ⟨places.1, ?_⟩
  by_cases heq : node = frame
  · rw [heq, hsize, ← heq, places.2]
  · rw [(writes.same (p.inUse _ _ places.1).toIsBlock heq).size, places.2]

theorem Placing.ShowsVariable.written {x : Option Datum} (hx : ρ.ShowsVariable h x b)
    (p : Placed w ρ h) (hs : h.Sound) (writes : Heap.Writes h k frame) (htag : h.tag frame = .frame)
    (hb : h.IsBlock b) : ρ.ShowsVariable k x b := by
  cases x with
  | none => exact hx
  | some v => exact Shows.written hx p hs writes htag hb

/-- The variables of a frame are held as before by nodes that are not written. -/
theorem Placed.variables_written (p : Placed w ρ h) (hs : h.Sound) (writes : Heap.Writes h k frame)
    (htag : h.tag frame = .frame) (hb : h.InUse b) (hbtag : h.tag b = .frame)
    {slots : List (Option Datum)} (hsize : h.size b = slots.length + 1)
    (hword : ∀ (j : Nat) (x : Option Datum), slots[j]? = some x →
      ρ.ShowsVariable h x (h.word b (j + 1))) {n : Nat} {x : Option Datum}
    (hx : slots[n]? = some x) : ρ.ShowsVariable k x (h.word b (n + 1)) := by
  have hn := (List.getElem?_eq_some_iff.1 hx).1
  exact (hword n x hx).written p hs writes htag
    (hs.word_frame hb hbtag (Nat.le_add_left 1 n) (hsize ▸ Nat.succ_lt_succ hn)).1.toIsBlock

/-- The other items are as they were. -/
theorem Placing.Holds.written {x : Item} (holds : ρ.Holds w h x b) (p : Placed w ρ h) (hs : h.Sound)
    (writes : Heap.Writes h k frame) (htag : h.tag frame = .frame)
    (hsize : k.size frame = h.size frame) (hb : h.InUse b) (hne : b ≠ frame) (hx : x ≠ .frame i) :
    ρ.Holds (w.assign i j v) k x b := by
  have same := writes.same hb.toIsBlock hne
  cases x with
  | frame i' =>
    obtain ⟨slots, hi', htag', hsize', hword⟩ := holds
    refine ⟨slots, ?_, same.tag.trans htag', same.size.trans hsize', fun n x hx => ?_⟩
    · change (w.store.frames.modify i _)[i']? = _
      rw [List.getElem?_modify, hi', Option.map_eq_map, Option.map_some,
        if_neg fun heq => hx (congrArg Item.frame heq.symm)]
    · have hn := (List.getElem?_eq_some_iff.1 hx).1
      have hle := (hs.typed b hb).le
      rw [same.word (n + 1) (Nat.le_add_left 1 n) (by omega)]
      exact p.variables_written hs writes htag hb htag' hsize' hword hx
  | function i' =>
    obtain ⟨f, hi', htag', harity, sees, hentry⟩ := holds
    refine ⟨f, hi', same.tag.trans htag', (same.word 1 (by decide) (by decide)).trans harity, ?_, ?_⟩
    · rw [same.word 2 (by decide) (by decide)]
      exact sees.written p hs writes htag hsize (hs.inUse_closure hb htag')
    · rw [same.payload]
      exact hentry
  | builtin b' =>
    refine ⟨same.tag.trans holds.1, ?_⟩
    rw [same.payload]
    exact holds.2

/-- A variable is assigned. -/
theorem Placed.assign (p : Placed w ρ h) (hs : h.Sound) (hframe : ρ (.frame i) frame)
    {slots : List (Option Datum)} (hslots : w.store.frames[i]? = some slots) (hj : j < slots.length)
    (hv : ρ.Shows h v a) (ha : h.InUse a) :
    Heap.Updated h (h.setWord frame (j + 1) a) frame ∧
      (h.setWord frame (j + 1) a).size frame = h.size frame ∧
      Placed (w.assign i j v) ρ (h.setWord frame (j + 1) a) := by
  have hin := p.inUse _ _ hframe
  obtain ⟨slots', hslots', htag, hsize, hword⟩ := p.holds _ _ hframe
  obtain rfl : slots = slots' := Option.some.inj (hslots.symm.trans hslots')
  have hlt : j + 1 < h.size frame := hsize ▸ Nat.succ_lt_succ hj
  have hle := (hs.typed frame hin).le
  have updated := hs.setVariable hin htag (Nat.le_add_left 1 j) hlt ha
    (p.tag hs hv ▸ v.isValue_tag)
  have writes := updated.toWrites
  have hkept : (h.setWord frame (j + 1) a).size frame = h.size frame :=
    congrArg (fun header : Header => header.size.toNat)
      (Heap.header_setWord hin.toIsBlock hin.toIsBlock (Nat.le_add_left 1 j) (by omega) a)
  refine ⟨updated, hkept, p.right_unique, p.left_unique,
    fun x b hb => updated.inUse (p.inUse x b hb), fun x b hb => ?_⟩
  by_cases hx : x = .frame i
  · subst hx
    obtain rfl : b = frame := p.right_unique _ _ _ hb hframe
    refine ⟨slots.set j (some v), ?_, updated.kind.trans htag, ?_, fun n x hx => ?_⟩
    · change (w.store.frames.modify i _)[i]? = _
      rw [List.getElem?_modify, hslots, Option.map_eq_map, Option.map_some, if_pos rfl]
    · rw [hkept, hsize, List.length_set]
    · have hn := (List.getElem?_eq_some_iff.1 hx).1
      rw [List.length_set] at hn
      rw [Heap.word_setWord_block hin.toIsBlock hin.toIsBlock (by omega) (by omega)]
      by_cases hnj : n = j
      · subst hnj
        rw [List.getElem?_set_self hj] at hx
        obtain rfl := Option.some.inj hx
        rw [if_pos ⟨rfl, rfl⟩]
        exact hv.written p hs writes htag ha.toIsBlock
      · rw [List.getElem?_set_ne fun heq => hnj heq.symm] at hx
        rw [if_neg fun heq => hnj (Nat.succ.inj heq.2)]
        exact p.variables_written hs writes htag hin htag hsize hword hx
  · have hne : b ≠ frame := by
      rintro rfl
      exact hx (p.left_unique _ _ _ hb hframe)
    exact (p.holds x b hb).written p hs writes htag hkept (p.inUse x b hb) hne hx

end Assign

end Source

end ChannelMachine
