import ChannelMachine.Machine.Builtins
import ChannelMachine.Machine.Operator
import ChannelMachine.Proofs.Heap.Meeting
import ChannelMachine.Proofs.Mirrors

/-!
# Heaps up to the kinds of elements

A typed channel records the kind of its elements in its header, next to the bit that says whether it is
unbuffered, and nothing else in a heap depends on what is recorded.  `Resembles h k` says that the heap
`k` is `h` but for these kinds.  In particular both have the same list of free nodes and the same counts.

What is read and written keeps this relation as it is, and so do collections of sound heaps: they follow
the same children and free the same nodes.
-/

namespace ChannelMachine

/-! ## Headers -/

namespace Header

/-- The second header is the one of a channel with another recorded kind. -/
structure Recorded (header other : Header) : Prop where
  /-- It is the header of a channel. -/
  tag : header.tag = .channel
  /-- Nothing but the payload differs. -/
  eq : other = { header with payload := other.payload }
  /-- The channel is unbuffered in both or in none. -/
  unbuffered : other.payload.toNat % 2 = header.payload.toNat % 2

/-- The second word is the first one but for a recorded kind. -/
def Like (w v : Nat) : Prop := v = w ∨ Recorded (unpack w) (unpack v)

namespace Like

variable {w v : Nat}

theorem refl (w : Nat) : Like w w := .inl rfl

theorem tag (like : Like w v) : (unpack v).tag = (unpack w).tag := by
  rcases like with rfl | recorded
  · rfl
  · rw [recorded.eq]

theorem mark (like : Like w v) : (unpack v).mark = (unpack w).mark := by
  rcases like with rfl | recorded
  · rfl
  · rw [recorded.eq]

theorem size (like : Like w v) : (unpack v).size = (unpack w).size := by
  rcases like with rfl | recorded
  · rfl
  · rw [recorded.eq]

theorem childRange (like : Like w v) : (unpack v).childRange = (unpack w).childRange := by
  rcases like with rfl | recorded
  · rfl
  · rw [recorded.eq]
    rfl

/-- The mark can be changed in both. -/
theorem withMark (like : Like w v) (mark : UInt8) :
    Like (pack { unpack w with mark }) (pack { unpack v with mark }) := by
  rcases like with rfl | ⟨tag, eq, unbuffered⟩
  · exact .inl rfl
  · refine .inr ⟨?_, ?_, ?_⟩
    · rw [unpack_pack]
      exact tag
    · rw [unpack_pack, unpack_pack, eq]
    · rw [unpack_pack, unpack_pack]
      exact unbuffered

end Like

end Header

namespace Heap

/-! ## Words -/

/-- Behind the header of a node there is no header. -/
theorem add_mod_ne {a i : Nat} (ha : a % nodeSize = 0) (hpos : 1 ≤ i) (hlt : i < nodeSize) :
    (a + i) % nodeSize ≠ 0 := by
  simp only [nodeSize] at *
  omega

/-- Two arenas that differ in the headers of channels only. -/
structure ArenaLike (words other : Array Nat) : Prop where
  /-- They have one size. -/
  size : other.size = words.size
  /-- Headers differ in recorded kinds. -/
  like : ∀ i, Header.Like (words.getD i 0) (other.getD i 0)
  /-- All else is the same. -/
  word : ∀ i, i % nodeSize ≠ 0 → other.getD i 0 = words.getD i 0

namespace ArenaLike

variable {words other : Array Nat}

theorem refl (words : Array Nat) : ArenaLike words words := ⟨rfl, fun _ => .refl _, fun _ _ => rfl⟩

theorem getD_set (words : Array Nat) (i j w : Nat) : (words.setIfInBounds i w).getD j 0 =
    if j = i ∧ j < words.size then w else words.getD j 0 := by
  simp only [Array.getD_eq_getD_getElem?, Array.getElem?_setIfInBounds]
  by_cases hji : i = j
  · subst hji
    by_cases hlt : i < words.size <;> simp [hlt]
  · simp [hji, Ne.symm hji]

/-- The same word of both is replaced. -/
theorem set {w v : Nat} (like : ArenaLike words other) (i : Nat) (hlike : Header.Like w v)
    (hword : i % nodeSize ≠ 0 → v = w) :
    ArenaLike (words.setIfInBounds i w) (other.setIfInBounds i v) := by
  refine ⟨by simp [like.size], fun j => ?_, fun j hj => ?_⟩
  · rw [getD_set, getD_set, like.size]
    split
    · exact hlike
    · exact like.like j
  · rw [getD_set, getD_set, like.size]
    split
    next h => exact hword (h.1 ▸ hj)
    next => exact like.word j hj

/-- A header of the second arena is replaced. -/
theorem put {v : Nat} (like : ArenaLike words other) {a : Nat} (ha : a % nodeSize = 0)
    (hlike : Header.Like (words.getD a 0) v) : ArenaLike words (other.setIfInBounds a v) := by
  refine ⟨by simp [like.size], fun j => ?_, fun j hj => ?_⟩
  · rw [getD_set]
    split
    next h => exact h.1 ▸ hlike
    next => exact like.like j
  · have hne : ¬ (j = a ∧ j < other.size) := fun h => hj (h.1 ▸ ha)
    rw [getD_set, if_neg hne]
    exact like.word j hj

/-- Nodes have the same children. -/
theorem mem_children (like : ArenaLike words other) {a c : Nat} (ha : a % nodeSize = 0)
    (hrange : (Header.unpack (words.getD a 0)).childRange.2 ≤ nodeSize) :
    c ∈ children other a ↔ c ∈ children words a := by
  rw [Heap.mem_children, Heap.mem_children, (like.like a).childRange, like.size]
  refine and_congr_right fun _ => exists_congr fun i => and_congr_right fun hlo =>
    and_congr_right fun hhi => and_congr_right fun _ => ?_
  have hone := Header.one_le_childRange_fst (Nat.lt_of_le_of_lt hlo hhi)
  rw [like.word (a + i) (add_mod_ne ha (Nat.le_trans hone hlo) (Nat.lt_of_lt_of_le hhi hrange))]

theorem unmarked (like : ArenaLike words other) {nodes : Address → Prop} (u : Unmarked words nodes) :
    Unmarked other nodes where
  aligned := u.aligned
  inside := fun a ha => like.size.symm ▸ u.inside a ha
  range := fun a ha => (like.like a).childRange ▸ u.range a ha
  mark := by
    intro a ha
    rw [Header.isMarked, (like.like a).mark]
    exact u.mark a ha
  child := fun a c ha hc => u.child a c ha ((like.mem_children (u.aligned a ha) (u.range a ha)).1 hc)

/-- The same can be reached in both. -/
theorem reach (like : ArenaLike words other) {nodes : Address → Prop} (u : Unmarked words nodes)
    {pending : List Address} (hpending : ∀ a ∈ pending, nodes a) {a : Address} :
    Reach other pending a ↔ Reach words pending a := by
  have u' := like.unmarked u
  constructor
  · intro ha
    induction ha with
    | pending ha => exact .pending ha
    | @child b c hb hc ih =>
      have hnode := u'.of_reach hpending hb
      exact .child ih ((like.mem_children (u.aligned b hnode) (u.range b hnode)).1 hc)
  · intro ha
    induction ha with
    | pending ha => exact .pending ha
    | @child b c hb hc ih =>
      have hnode := u.of_reach hpending hb
      exact .child ih ((like.mem_children (u.aligned b hnode) (u.range b hnode)).2 hc)

/-- Marking sets the same marks. -/
theorem mark (like : ArenaLike words other) {nodes : Address → Prop} (u : Unmarked words nodes)
    {pending : List Address} (hpending : ∀ a ∈ pending, nodes a) :
    ArenaLike (Heap.mark words pending) (Heap.mark other pending) := by
  have hmarked := mark_spec u hpending
  have hmarked' := mark_spec (like.unmarked u) hpending
  have hword : ∀ i, (Reach words pending i ∧ (Heap.mark words pending).getD i 0 =
        Header.marked (words.getD i 0) ∧ (Heap.mark other pending).getD i 0 =
        Header.marked (other.getD i 0)) ∨
      (Heap.mark words pending).getD i 0 = words.getD i 0 ∧
        (Heap.mark other pending).getD i 0 = other.getD i 0 := by
    intro i
    by_cases hi : Reach words pending i
    · exact .inl ⟨hi, hmarked.mark i hi, hmarked'.mark i ((like.reach u hpending).2 hi)⟩
    · exact .inr ⟨hmarked.other i hi, hmarked'.other i fun h => hi ((like.reach u hpending).1 h)⟩
  refine ⟨by rw [size_mark, size_mark, like.size], fun i => ?_, fun i hne => ?_⟩
  · rcases hword i with ⟨-, h, h'⟩ | ⟨h, h'⟩
    · rw [h, h']
      exact (like.like i).withMark 1
    · rw [h, h']
      exact like.like i
  · rcases hword i with ⟨hi, -⟩ | ⟨h, h'⟩
    · exact absurd (u.aligned i (u.of_reach hpending hi)) hne
    · rw [h, h', like.word i hne]

end ArenaLike

/-! ## Heaps -/

/-- The second heap is the first one but for the recorded kinds of elements. -/
inductive Resembles (h : Heap) : Heap → Prop where
  /-- Only the arenas differ. -/
  | intro {words : Array Nat} (like : ArenaLike h.words words) : Resembles h { h with words }

namespace Resembles

variable {h k : Heap} {a b : Address} {i : Nat}

theorem refl (h : Heap) : Resembles h h := .intro (.refl _)

theorem like (r : Resembles h k) : ArenaLike h.words k.words := by
  cases r
  assumption

/-! ### What is read -/

theorem header (r : Resembles h k) (a : Address) :
    k.header a = h.header a ∨ Header.Recorded (h.header a) (k.header a) := by
  rcases r.like.like a with heq | recorded
  · exact .inl (congrArg Header.unpack heq)
  · exact .inr recorded

theorem tag (r : Resembles h k) (a : Address) : k.tag a = h.tag a := (r.like.like a).tag

theorem size (r : Resembles h k) (a : Address) : k.size a = h.size a :=
  congrArg UInt16.toNat (r.like.like a).size

theorem payload (r : Resembles h k) (htag : h.tag a ≠ .channel) : k.payload a = h.payload a := by
  rcases r.header a with heq | recorded
  · exact congrArg Header.payload heq
  · exact absurd recorded.tag htag

theorem isUnbuffered (r : Resembles h k) (a : Address) : k.isUnbuffered a = h.isUnbuffered a := by
  rcases r.header a with heq | recorded
  · rw [Heap.isUnbuffered, Heap.payload, heq]
    rfl
  · exact congrArg (· == 1) recorded.unbuffered

/-- Behind their headers nodes are the same. -/
theorem word (r : Resembles h k) (ha : h.IsBlock a) (hpos : 1 ≤ i) (hlt : i < nodeSize) :
    k.word a i = h.word a i :=
  r.like.word (a + i) (add_mod_ne ha.aligned hpos hlt)

theorem nodeCount (r : Resembles h k) : k.nodeCount = h.nodeCount :=
  congrArg (· / nodeSize) r.like.size

theorem stats (r : Resembles h k) : k.stats = h.stats := by
  have hcount := r.nodeCount
  cases r
  rw [Heap.stats, hcount]
  rfl

theorem permanentRoots (r : Resembles h k) : k.permanentRoots = h.permanentRoots := by
  have htag := r.tag
  cases r
  rw [Heap.permanentRoots, Heap.permanentRoots]
  exact List.filter_congr fun a _ => by rw [htag]

/-! ### What is written -/

theorem setWord (r : Resembles h k) (a : Address) (i w : Nat) :
    Resembles (h.setWord a i w) (k.setWord a i w) := by
  cases r with
  | intro like => exact .intro (like.set (a + i) (.refl w) fun _ => rfl)

/-- A new header, which may have the recorded kind of the old one. -/
theorem setHeader {header other : Header} (r : Resembles h k) (ha : a % nodeSize = 0)
    (hlike : Header.Like header.pack other.pack) :
    Resembles (h.setHeader a header) (k.setHeader a other) := by
  cases r with
  | intro like => exact .intro (like.set (a + 0) hlike fun hne => absurd ha hne)

theorem setPayload (r : Resembles h k) (a : Address) (payload : UInt32) :
    Resembles (h.setPayload a payload) (k.setPayload a payload) := by
  have heq : { k.header a with payload } = { h.header a with payload } := by
    rcases r.header a with heq | recorded
    · rw [heq]
    · rw [recorded.eq]
  rw [Heap.setPayload, Heap.setPayload, heq]
  exact r.setWord a 0 _

theorem setWords (a : Address) (ws : List Nat) :
    ∀ {h k : Heap} {i : Nat}, Resembles h k → Resembles (h.setWords a i ws) (k.setWords a i ws) := by
  induction ws with
  | nil => exact fun r => r
  | cons w rest ih => exact fun r => ih (r.setWord a _ w)

/-- The copied words are behind the header of the node that they are copied from. -/
theorem copyWords {source : Address} (target : Address) (hsource : source % nodeSize = 0) (n : Nat) :
    ∀ {h k : Heap} {i : Nat}, Resembles h k → 1 ≤ i → i + n ≤ nodeSize →
      Resembles (h.copyWords source target i n) (k.copyWords source target i n) := by
  induction n with
  | zero => exact fun r _ _ => r
  | succ n ih =>
    intro h k i r hpos hle
    have hword : k.word source i = h.word source i :=
      r.like.word (source + i) (add_mod_ne hsource hpos (by omega))
    rw [Heap.copyWords, Heap.copyWords, hword]
    exact ih (r.setWord target i _) (Nat.le_succ_of_le hpos) (by omega)

theorem setNumber (r : Resembles h k) (a : Address) (x : Number) :
    Resembles (h.setNumber a x) (k.setNumber a x) :=
  r.setWord a 1 _

theorem intern (r : Resembles h k) (a : Address) (text : String) :
    Resembles (h.intern a text) (k.intern a text) := by
  cases r with
  | intro like => exact .intro (like.set (a + 1) (.refl _) fun _ => rfl)

theorem withBuilding (r : Resembles h k) (building : List Address) :
    Resembles (h.withBuilding building) (k.withBuilding building) := by
  cases r with
  | intro like => exact .intro like

theorem building (r : Resembles h k) : k.building = h.building := by cases r; rfl

theorem held (r : Resembles h k) (a : Address) : Resembles (h.held a) (k.held a) := by
  rw [Heap.held, Heap.held, r.building]
  exact r.withBuilding _

/-! ### Collections -/

theorem evict (r : Resembles h k) (ha : a % nodeSize = 0) : Resembles (h.evict a) (k.evict a) := by
  have hword : k.word a 1 = h.word a 1 :=
    r.like.word (a + 1) (add_mod_ne ha (Nat.le_refl 1) (by decide))
  rw [Heap.evict, Heap.evict, hword]
  cases r with
  | intro like =>
    dsimp only
    split
    · exact .intro like
    · exact .intro like

theorem countFreed (r : Resembles h k) : Resembles h.countFreed k.countFreed := by
  cases r with
  | intro like => exact .intro like

theorem release (r : Resembles h k) (a : Address) : Resembles (h.release a) (k.release a) := by
  cases r with
  | intro like => exact .intro (like.set (a + 0) (.refl _) fun _ => rfl)

theorem reclaim (r : Resembles h k) (ha : a % nodeSize = 0) : Resembles (h.reclaim a) (k.reclaim a) := by
  rw [Heap.reclaim, Heap.reclaim, r.tag]
  split
  · exact r.release a
  · exact (r.evict ha).countFreed.release a
  · exact r.countFreed.release a

theorem isPermanent (r : Resembles h k) (a : Address) : k.isPermanent a = h.isPermanent a := by
  cases r
  rfl

theorem sweepNode (r : Resembles h k) (ha : a % nodeSize = 0) :
    Resembles (h.sweepNode a) (k.sweepNode a) := by
  have hmark : (k.header a).mark = (h.header a).mark := (r.like.like a).mark
  simp only [Heap.sweepNode, r.isPermanent, hmark]
  split
  · exact r.setHeader ha ((r.like.like a).withMark 0)
  · exact r.reclaim ha

theorem sweep (n : Nat) :
    ∀ {h k : Heap}, Resembles h k → Resembles (h.sweep n) (k.sweep n) := by
  induction n with
  | zero => exact fun r => r
  | succ n ih => exact fun r => ih (r.sweepNode (addressOf_mod n))

theorem counted (r : Resembles h k) : Resembles h.counted k.counted := by
  have hstats : ({ k with collections := k.collections + 1 } : Heap).stats =
      ({ h with collections := h.collections + 1 } : Heap).stats := by
    cases r with
    | intro like => exact (intro (h := { h with collections := h.collections + 1 }) like).stats
  unfold Heap.counted
  cases r with
  | intro like =>
    dsimp only at hstats ⊢
    split
    · rw [hstats]
      exact .intro like
    · exact .intro like

theorem marked (r : Resembles h k) (hs : h.Sound) {roots : List Address}
    (hroots : ∀ a ∈ roots, h.InUse a) : Resembles (h.marked roots) (k.marked roots) := by
  have hpending : ∀ a ∈ h.permanentRoots.reverse ++ h.building ++ roots.reverse, h.InUse a :=
    fun a ha => hs.inUse_of_live hroots (.pending ha)
  have hpermanent := r.permanentRoots
  unfold Heap.marked
  rw [hpermanent]
  cases r with
  | intro like => exact .intro (like.mark hs.unmarked hpending)

/-- A collection keeps and frees the same nodes in both. -/
theorem collect (r : Resembles h k) (hs : h.Sound) {roots : List Address}
    (hroots : ∀ a ∈ roots, h.InUse a) : Resembles (h.collect roots) (k.collect roots) := by
  have hmarked := r.marked hs hroots
  have hswept := hmarked.sweep (h.marked roots).nodeCount
  rw [collect_eq, collect_eq, hmarked.nodeCount]
  exact hswept.counted

end Resembles

end Heap

end ChannelMachine
