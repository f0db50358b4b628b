import ChannelMachine.Proofs.Heap.Making

/-!
# Heaps that differ in addresses

Two runs of a program may give the same node different addresses.  A `Pairing` says which node of
one heap stands for which node of the other, and `Paired ρ h k roots roots'` that everything live
in `k` has its partner in `h`.  Partners are of the same kind, and their children are partners
again.

Nothing is said about nodes that are not live, and one of the two heaps may have freed them while
the other one still has them.  The heap `h` may have live nodes that stand for none of `k`.  If `k`
is not smaller, and all of its nodes are live, then all nodes of `h` are live (`Paired.full`).
-/

namespace ChannelMachine

/-- The words in front of the given one that are no children, and that are read. -/
def Header.dataEnd (header : Header) : Nat :=
  match header.tag with
  | .number | .closure => 2
  | .channel => ringStart
  | _ => 0

namespace Heap

/-- Which nodes of two heaps stand for one another. -/
abbrev Pairing := Address → Address → Prop

/-- Lists of partners. -/
inductive Partners (ρ : Pairing) : List Address → List Address → Prop where
  | nil : Partners ρ [] []
  | cons {a b : Address} {l l' : List Address} :
      ρ a b → Partners ρ l l' → Partners ρ (a :: l) (b :: l')

namespace Pairing

/-- The pairs whose second nodes are among the given ones. -/
def within (ρ : Pairing) (nodes : Address → Prop) : Pairing := fun a b => ρ a b ∧ nodes b

/-- One pair more. -/
def add (ρ : Pairing) (x y : Address) : Pairing := fun a b => ρ a b ∨ (a = x ∧ b = y)

/-- Two words that stand for one another: those of partners, or of vacant slots. -/
def Child (ρ : Pairing) (v w : Nat) : Prop := ρ v w ∨ (v = vacant ∧ w = vacant)

/-- Everything in the second list has a partner in the first one. -/
def Covers (ρ : Pairing) (l l' : List Address) : Prop := ∀ b ∈ l', ∃ a ∈ l, ρ a b

variable {ρ σ : Pairing}

theorem Child.imp {v w : Nat} (hvw : ρ.Child v w) (h : ρ v w → σ v w) : σ.Child v w :=
  hvw.imp_left h

theorem Covers.imp {l l' : List Address} (hl : ρ.Covers l l')
    (h : ∀ a b, ρ a b → b ∈ l' → σ a b) : σ.Covers l l' := by
  intro b hb
  obtain ⟨a, ha, hab⟩ := hl b hb
  exact ⟨a, ha, h a b hab hb⟩

theorem Covers.cons {l l' : List Address} (hl : ρ.Covers l l') {x y : Address} (hxy : ρ x y) :
    ρ.Covers (x :: l) (y :: l') := by
  intro b hb
  cases hb with
  | head => exact ⟨x, List.mem_cons_self .., hxy⟩
  | tail _ hb =>
    obtain ⟨a, ha, hab⟩ := hl b hb
    exact ⟨a, List.mem_cons_of_mem _ ha, hab⟩

end Pairing

namespace Partners

variable {ρ σ : Pairing} {l l' : List Address}

theorem length_eq (hl : Partners ρ l l') : l.length = l'.length := by
  induction hl with
  | nil => rfl
  | cons _ _ ih => exact congrArg (· + 1) ih

/-- Partners are found at the same places. -/
theorem getElem? (hl : Partners ρ l l') : ∀ i : Nat,
    (∃ a b, l[i]? = some a ∧ l'[i]? = some b ∧ ρ a b) ∨ (l[i]? = none ∧ l'[i]? = none) := by
  induction hl with
  | nil => exact fun i => .inr ⟨List.getElem?_nil, List.getElem?_nil⟩
  | cons hab _ ih =>
    intro i
    cases i with
    | zero => exact .inl ⟨_, _, rfl, rfl, hab⟩
    | succ i =>
      rw [List.getElem?_cons_succ, List.getElem?_cons_succ]
      exact ih i

theorem of_getElem? (hl : Partners ρ l l') {i : Nat} {a b : Address} (ha : l[i]? = some a)
    (hb : l'[i]? = some b) : ρ a b := by
  rcases hl.getElem? i with ⟨a', b', ha', hb', hab⟩ | ⟨hnone, -⟩
  · rw [Option.some.inj (ha.symm.trans ha'), Option.some.inj (hb.symm.trans hb')]
    exact hab
  · rw [ha] at hnone
    cases hnone

theorem covers (hl : Partners ρ l l') : ρ.Covers l l' := by
  induction hl with
  | nil => exact fun b hb => absurd hb List.not_mem_nil
  | cons hab _ ih => exact ih.cons hab

theorem exists_right (hl : Partners ρ l l') {a : Address} (ha : a ∈ l) : ∃ b ∈ l', ρ a b := by
  induction hl with
  | nil => cases ha
  | cons hab _ ih =>
    cases ha with
    | head => exact ⟨_, List.mem_cons_self .., hab⟩
    | tail _ ha =>
      obtain ⟨b, hb, hab⟩ := ih ha
      exact ⟨b, List.mem_cons_of_mem _ hb, hab⟩

theorem imp (hl : Partners ρ l l') (h : ∀ a b, b ∈ l' → ρ a b → σ a b) : Partners σ l l' := by
  induction hl with
  | nil => exact .nil
  | cons hab _ ih =>
    refine .cons (h _ _ (List.mem_cons_self ..) hab) (ih fun a b hb hab => ?_)
    exact h a b (List.mem_cons_of_mem _ hb) hab

/-- Nodes that are their own partners. -/
theorem self {l : List Address} (h : ∀ a ∈ l, ρ a a) : Partners ρ l l := by
  induction l with
  | nil => exact .nil
  | cons a l ih => exact .cons (h a (List.mem_cons_self ..)) (ih fun b hb =>
      h b (List.mem_cons_of_mem _ hb))

theorem map {α : Type} {f g : α → Address} {l : List α} (h : ∀ x ∈ l, ρ (f x) (g x)) :
    Partners ρ (l.map f) (l.map g) := by
  induction l with
  | nil => exact .nil
  | cons x l ih => exact .cons (h x (List.mem_cons_self ..)) (ih fun y hy =>
      h y (List.mem_cons_of_mem _ hy))

theorem append (hl : Partners ρ l l') {r r' : List Address} (hr : Partners ρ r r') :
    Partners ρ (l ++ r) (l' ++ r') := by
  induction hl with
  | nil => exact hr
  | cons hab _ ih => exact .cons hab ih

theorem reverse (hl : Partners ρ l l') : Partners ρ l.reverse l'.reverse := by
  induction hl with
  | nil => exact .nil
  | cons hab _ ih =>
    rw [List.reverse_cons, List.reverse_cons]
    exact ih.append (.cons hab .nil)

theorem take (hl : Partners ρ l l') : ∀ n, Partners ρ (l.take n) (l'.take n) := by
  induction hl with
  | nil =>
    intro n
    rw [List.take_nil]
    exact .nil
  | cons hab _ ih =>
    intro n
    cases n with
    | zero => exact .nil
    | succ n => exact .cons hab (ih n)

theorem drop (hl : Partners ρ l l') : ∀ n, Partners ρ (l.drop n) (l'.drop n) := by
  induction hl with
  | nil =>
    intro n
    rw [List.drop_nil]
    exact .nil
  | cons hab hrest ih =>
    intro n
    cases n with
    | zero => exact .cons hab hrest
    | succ n => exact ih n

end Partners

/-! ## Partners -/

/-- Two nodes that look the same, if partners are not told apart. -/
structure Similar (ρ : Pairing) (h k : Heap) (a b : Nat) : Prop where
  tag : k.tag b = h.tag a
  text : k.text? b = h.text? a
  /-- The header of a string node is not read. -/
  header : h.tag a ≠ .string → k.header b = h.header a
  data : ∀ i, 1 ≤ i → i < (h.header a).dataEnd → k.word b i = h.word a i
  child : ∀ i, (h.header a).childRange.1 ≤ i → i < (h.header a).childRange.2 →
    ρ.Child (h.word a i) (k.word b i)

theorem childRange_string {header : Header} (ht : header.tag = .string) :
    header.childRange = (0, 0) ∧ header.dataEnd = 0 := by
  unfold Header.childRange Header.dataEnd
  rw [ht]
  exact ⟨rfl, rfl⟩

theorem dataEnd_le (header : Header) : header.dataEnd ≤ nodeSize := by
  unfold Header.dataEnd
  split <;> decide

namespace Similar

variable {ρ σ : Pairing} {h h' k k' : Heap} {a b : Nat}

/-- The same words of partners are children, and the same words are data. -/
theorem ranges (s : Similar ρ h k a b) :
    (k.header b).childRange = (h.header a).childRange ∧
      (k.header b).dataEnd = (h.header a).dataEnd := by
  by_cases ht : h.tag a = .string
  · have hk := childRange_string (show (k.header b).tag = .string from s.tag.trans ht)
    have hh := childRange_string (show (h.header a).tag = .string from ht)
    exact ⟨hk.1.trans hh.1.symm, hk.2.trans hh.2.symm⟩
  · rw [s.header ht]
    exact ⟨rfl, rfl⟩

/-- Partners stay partners in heaps that keep both of them, if their children do. -/
theorem transport (s : Similar ρ h k a b) (left : SameNode h h' a) (ltext : h'.text? a = h.text? a)
    (right : SameNode k k' b) (rtext : k'.text? b = k.text? b)
    (hrange : (h.header a).childRange.2 ≤ nodeSize)
    (hchild : ∀ i, (h.header a).childRange.1 ≤ i → i < (h.header a).childRange.2 →
      ρ (h.word a i) (k.word b i) → σ (h.word a i) (k.word b i)) :
    Similar σ h' k' a b where
  tag := (right.tag.trans s.tag).trans left.tag.symm
  text := (rtext.trans s.text).trans ltext.symm
  header := by
    rw [left.tag, left.header, right.header]
    exact s.header
  data := by
    rw [left.header]
    intro i hpos hlt
    have hnode := Nat.lt_of_lt_of_le hlt (dataEnd_le _)
    rw [right.word i hpos hnode, left.word i hpos hnode]
    exact s.data i hpos hlt
  child := by
    rw [left.header]
    intro i hle hlt
    have hpos := Header.one_le_childRange_fst (Nat.lt_of_le_of_lt hle hlt)
    have hnode := Nat.lt_of_lt_of_le hlt hrange
    have hone := Nat.le_trans hpos hle
    rw [right.word i hone hnode, left.word i hone hnode]
    exact (s.child i hle hlt).imp (hchild i hle hlt)

theorem imp (s : Similar ρ h k a b) (hρ : ∀ v w, ρ v w → σ v w) : Similar σ h k a b :=
  ⟨s.tag, s.text, s.header, s.data, fun i hle hlt => (s.child i hle hlt).imp (hρ _ _)⟩

end Similar

/-! ## Matched heaps -/

/-- The pairs are nodes in use that look the same, no node has two partners, and permanent nodes
are their own partners. -/
structure Matched (ρ : Pairing) (h k : Heap) : Prop where
  left_inUse : ∀ a b, ρ a b → h.InUse a
  right_inUse : ∀ a b, ρ a b → k.InUse b
  similar : ∀ a b, ρ a b → Similar ρ h k a b
  right_unique : ∀ a b b', ρ a b → ρ a b' → b = b'
  left_unique : ∀ a a' b, ρ a b → ρ a' b → a = a'
  bottom : k.bottom = h.bottom
  permanent : ∀ a : Nat, a % nodeSize = 0 → a < h.bottom → ρ a a

namespace Matched

variable {ρ : Pairing} {h h' k k' : Heap}

theorem alike (m : Matched ρ h k) (left : Alike h h') (right : Alike k k') : Matched ρ h' k' where
  left_inUse := fun a b hab => left.inUse.2 (m.left_inUse a b hab)
  right_inUse := fun a b hab => right.inUse.2 (m.right_inUse a b hab)
  similar := by
    intro a b hab
    have s := m.similar a b hab
    refine ⟨?_, ?_, ?_, ?_, ?_⟩
    · rw [left.tag, right.tag, s.tag]
    · rw [left.text?, right.text?, s.text]
    · rw [left.tag, left.header, right.header]
      exact s.header
    · intro i
      rw [left.header, left.word, right.word]
      exact s.data i
    · intro i
      rw [left.header, left.word, right.word]
      exact s.child i
  right_unique := m.right_unique
  left_unique := m.left_unique
  bottom := by rw [left.bottom, right.bottom, m.bottom]
  permanent := by
    rw [left.bottom]
    exact m.permanent

/-- A pair more: two nodes that look the same, and that have no other partners. -/
theorem add (m : Matched ρ h k) {x y : Address} (hx : h.InUse x) (hy : k.InUse y)
    (s : Similar ρ h k x y) (hright : ∀ b, ρ x b → b = y) (hleft : ∀ a, ρ a y → a = x) :
    Matched (ρ.add x y) h k where
  left_inUse := by
    rintro a b (hab | ⟨rfl, rfl⟩)
    · exact m.left_inUse a b hab
    · exact hx
  right_inUse := by
    rintro a b (hab | ⟨rfl, rfl⟩)
    · exact m.right_inUse a b hab
    · exact hy
  similar := by
    rintro a b (hab | ⟨rfl, rfl⟩)
    · exact (m.similar a b hab).imp fun _ _ => .inl
    · exact s.imp fun _ _ => .inl
  right_unique := by
    rintro a b b' (hab | ⟨ha, hb⟩) (hab' | ⟨ha', hb'⟩)
    · exact m.right_unique a b b' hab hab'
    · exact (hright b (ha' ▸ hab)).trans hb'.symm
    · exact hb.trans (hright b' (ha ▸ hab')).symm
    · exact hb.trans hb'.symm
  left_unique := by
    rintro a a' b (hab | ⟨ha, hb⟩) (hab' | ⟨ha', hb'⟩)
    · exact m.left_unique a a' b hab hab'
    · exact (hleft a (hb' ▸ hab)).trans ha'.symm
    · exact ha.trans (hleft a' (hb ▸ hab')).symm
    · exact ha.trans ha'.symm
  bottom := m.bottom
  permanent := fun a hmod hlt => .inl (m.permanent a hmod hlt)

/-- The constants are their own partners. -/
theorem constant (m : Matched ρ h k) (hi : h.Intact) {i : Nat} (hlt : i < constants.length) :
    ρ (addressOf i) (addressOf i) := by
  refine m.permanent _ (addressOf_mod i) (Nat.lt_of_lt_of_le ?_ hi.constants_le)
  exact Nat.mul_lt_mul_of_pos_left hlt (by decide)

end Matched

/-! ## Paired heaps -/

/-- Two sound heaps.  Everything live in the second one has a partner in the first one. -/
structure Paired (ρ : Pairing) (h k : Heap) (roots roots' : List Address) : Prop extends
    Matched ρ h k where
  left : h.Sound
  right : k.Sound
  left_roots : ∀ a ∈ roots, h.InUse a
  roots : ρ.Covers roots roots'
  building : ρ.Covers h.building k.building

namespace Paired

variable {ρ : Pairing} {h h' k k' : Heap} {roots roots' : List Address}

theorem right_roots (p : Paired ρ h k roots roots') : ∀ b ∈ roots', k.InUse b := by
  intro b hb
  obtain ⟨a, -, hab⟩ := p.roots b hb
  exact p.right_inUse a b hab

/-- The children of partners are partners. -/
theorem exists_child (p : Paired ρ h k roots roots') {a b d : Nat} (hab : ρ a b)
    (hd : d ∈ children k.words b) : ∃ c ∈ children h.words a, ρ c d := by
  have s := p.similar a b hab
  have ha := p.left_inUse a b hab
  obtain ⟨hv, i, hle, hlt, -, hword⟩ := mem_children.1 hd
  change (k.header b).childRange.1 ≤ i at hle
  change i < (k.header b).childRange.2 at hlt
  rw [s.ranges.1] at hle hlt
  rcases s.child i hle hlt with hcd | ⟨-, hvacant⟩
  · refine ⟨h.word a i, ?_, hword ▸ hcd⟩
    exact mem_children_of_inUse p.left.toIntact (p.left.typed a ha) ha.toIsBlock hle hlt
      (p.left_inUse _ _ hcd)
  · exact absurd (hword.symm.trans hvacant) hv

/-- Everything live in the second heap has a partner, which is live. -/
theorem exists_left (p : Paired ρ h k roots roots') {b : Nat} (hb : k.Live roots' b) :
    ∃ a, ρ a b ∧ h.Live roots a := by
  refine hb.elim (motive := fun b => ∃ a, ρ a b ∧ h.Live roots a) p.right.toIntact ?_ ?_ ?_ ?_
  · intro b hb
    obtain ⟨a, ha, hab⟩ := p.roots b hb
    exact ⟨a, hab, .root ha⟩
  · intro b hb
    obtain ⟨a, ha, hab⟩ := p.building b hb
    exact ⟨a, hab, .building ha⟩
  · intro b hmod hlt
    have hlow : b < h.bottom := p.bottom ▸ hlt
    exact ⟨b, p.permanent b hmod hlow, .permanent p.left.toIntact hmod hlow⟩
  · rintro b d - hd ⟨a, hab, ha⟩
    obtain ⟨c, hc, hcd⟩ := p.exists_child hab hd
    exact ⟨c, hcd, .child ha hc⟩

/-- The partner of a live node is live. -/
theorem live_left (p : Paired ρ h k roots roots') {a b : Nat} (hab : ρ a b)
    (hb : k.Live roots' b) : h.Live roots a := by
  obtain ⟨a', hab', ha'⟩ := p.exists_left hb
  exact p.left_unique a' a b hab' hab ▸ ha'

/-- The children of a live node are live. -/
theorem live_child (p : Paired ρ h k roots roots') {a b i : Nat} (hab : ρ a b)
    (hb : k.Live roots' b) (hle : (h.header a).childRange.1 ≤ i)
    (hlt : i < (h.header a).childRange.2) (hw : ρ (h.word a i) (k.word b i)) :
    k.Live roots' (k.word b i) := by
  have hin := p.right_inUse a b hab
  rw [← (p.similar a b hab).ranges.1] at hle hlt
  exact .child hb (mem_children_of_inUse p.right.toIntact (p.right.typed b hin) hin.toIsBlock hle
    hlt (p.right_inUse _ _ hw))

/-- Both heaps may grow: what is live in the second one keeps its partner. -/
theorem grow (p : Paired ρ h k roots roots') (left : Grows h h' roots) (right : Grows k k' roots') :
    Paired (ρ.within (k.Live roots')) h' k' roots roots' where
  left_inUse := fun a b ⟨hab, hb⟩ => left.inUse p.left p.left_roots (p.live_left hab hb)
  right_inUse := fun a b ⟨_, hb⟩ => right.inUse p.right p.right_roots hb
  similar := by
    rintro a b ⟨hab, hb⟩
    have ha := p.live_left hab hb
    have hrange := (p.left.typed a (p.left_inUse a b hab)).range
    refine (p.similar a b hab).transport (left.node a ha) (left.text a ha) (right.node b hb)
      (right.text b hb) hrange fun i hle hlt hw => ⟨hw, p.live_child hab hb hle hlt hw⟩
  right_unique := fun a b b' hab hab' => p.right_unique a b b' hab.1 hab'.1
  left_unique := fun a a' b hab hab' => p.left_unique a a' b hab.1 hab'.1
  bottom := by rw [left.bottom, right.bottom, p.bottom]
  permanent := by
    rw [left.bottom]
    exact fun a hmod hlt =>
      ⟨p.permanent a hmod hlt, .permanent p.right.toIntact hmod (p.bottom.symm ▸ hlt)⟩
  left := left.sound
  right := right.sound
  left_roots := fun a ha => left.inUse p.left p.left_roots (.root ha)
  roots := p.roots.imp fun a b hab hb => ⟨hab, .root hb⟩
  building := by
    rw [left.building, right.building]
    exact p.building.imp fun a b hab hb => ⟨hab, .building hb⟩

theorem add (p : Paired ρ h k roots roots') {x y : Address} (hx : h.InUse x) (hy : k.InUse y)
    (s : Similar ρ h k x y) (hright : ∀ b, ρ x b → b = y) (hleft : ∀ a, ρ a y → a = x) :
    Paired (ρ.add x y) h k roots roots' where
  toMatched := p.toMatched.add hx hy s hright hleft
  left := p.left
  right := p.right
  left_roots := p.left_roots
  roots := p.roots.imp fun _ _ hab _ => .inl hab
  building := p.building.imp fun _ _ hab _ => .inl hab

/-! ## Full heaps -/

/-- The partners of the first nodes of a heap in which everything is live. -/
theorem exists_partners (p : Paired ρ h k roots roots')
    (hfull : ∀ b, k.IsBlock b → k.Live roots' b) :
    ∀ n, n ≤ k.nodeCount → ∃ l : List Nat, l.length = n ∧ l.Nodup ∧ ∀ i ∈ l,
      i < h.nodeCount ∧ ∃ j, j < n ∧ k.Live roots' (addressOf j) ∧
        ρ (addressOf i) (addressOf j) := by
  intro n
  induction n with
  | zero => exact fun _ => ⟨[], rfl, .nil, fun _ h => absurd h List.not_mem_nil⟩
  | succ n ih =>
    intro hn
    obtain ⟨l, hlen, hnodup, hl⟩ := ih (Nat.le_of_succ_le hn)
    have hb := hfull _ (isBlock_addressOf.2 hn)
    obtain ⟨a, hab, -⟩ := p.exists_left hb
    obtain ⟨i, hi, rfl⟩ := (p.left_inUse _ _ hab).toIsBlock.exists_index
    refine ⟨i :: l, by rw [List.length_cons, hlen], List.nodup_cons.2 ⟨fun hmem => ?_, hnodup⟩, ?_⟩
    · obtain ⟨-, j, hj, -, hij⟩ := hl i hmem
      have heq := addressOf_inj (p.right_unique _ _ _ hij hab)
      omega
    · intro i' hi'
      rcases List.mem_cons.1 hi' with rfl | hi'
      · exact ⟨hi, n, Nat.lt_succ_self n, hb, hab⟩
      · obtain ⟨hlt, j, hj, hlive, hij⟩ := hl i' hi'
        exact ⟨hlt, j, Nat.lt_succ_of_lt hj, hlive, hij⟩

/-- Different live nodes of one heap have different partners, so if all nodes of the second heap
are live, and it is not smaller, each node of the first one is the partner of a live node. -/
theorem full (p : Paired ρ h k roots roots') (hcount : h.nodeCount ≤ k.nodeCount)
    (hfull : ∀ b, k.IsBlock b → k.Live roots' b) {a : Nat} (ha : h.IsBlock a) :
    ∃ b, ρ a b ∧ k.Live roots' b := by
  obtain ⟨i, hi, rfl⟩ := ha.exists_index
  obtain ⟨l, hlen, hnodup, hl⟩ := p.exists_partners hfull k.nodeCount (Nat.le_refl _)
  refine Classical.byContradiction fun hnot => ?_
  have hmem : i ∉ l := fun hmem => by
    obtain ⟨-, j, -, hlive, hij⟩ := hl i hmem
    exact hnot ⟨_, hij, hlive⟩
  have hmore : (i :: l).Nodup := List.nodup_cons.2 ⟨hmem, hnodup⟩
  have hsub : ∀ x ∈ i :: l, x ∈ List.range h.nodeCount := by
    intro x hx
    rcases List.mem_cons.1 hx with rfl | hx
    · exact List.mem_range.2 hi
    · exact List.mem_range.2 (hl x hx).1
  have hle := hmore.length_le_of_subset hsub
  rw [List.length_cons, hlen, List.length_range] at hle
  omega

end Paired

end Heap

end ChannelMachine
