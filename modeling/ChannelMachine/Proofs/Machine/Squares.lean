import ChannelMachine.Proofs.Machine.Resuming
import ChannelMachine.Proofs.Machine.Sharing
import ChannelMachine.Proofs.Pairing.Renaming

/-!
# Two turns in both orders

A `Square` is a machine and the turns of two threads, taken in both orders, where each thread has the same
effect in both of them.  The collector may run at different moments, so the new nodes are at different
addresses, but both effects made the same ones.  `Kin` says which node at one end of the square is the same
as which node at the other end: it was there before and still is, or it was made by the same
effect.  At the two ends the kin are nodes that look the same (`Square.matched`).
-/

namespace ChannelMachine

open Heap (Pairing Partners Matched Similar SimilarWords)

/-- A word that a node has as a child is vacant or live. -/
theorem Heap.Sound.live_word {h : Heap} (hs : h.Sound) {roots : List Address}
    (hroots : ∀ a ∈ roots, h.InUse a) {a i : Nat} (ha : h.Live roots a)
    (hle : (h.header a).childRange.1 ≤ i) (hlt : i < (h.header a).childRange.2) :
    h.word a i = vacant ∨ h.Live roots (h.word a i) := by
  have hin := hs.inUse_of_live hroots ha
  have hnode := hs.typed a hin
  rcases hnode.child i hle hlt with ⟨-, hvacant⟩ | ⟨hchild, -⟩
  · exact .inl hvacant
  · exact .inr (.child ha (mem_children_of_inUse hs.toIntact hnode hin.toIsBlock hle hlt hchild))

/-- Two nodes of the same text look the same. -/
theorem Heap.similar_of_text {ρ : Pairing} {h k : Heap} {a b : Nat} {s : String}
    (htag : h.tag a = .string) (htext : h.text? a = some s) (htag' : k.tag b = .string)
    (htext' : k.text? b = some s) : Similar ρ h k a b := by
  have hrange := childRange_string (show (h.header a).tag = .string from htag)
  refine ⟨htag'.trans htag.symm, htext'.trans htext.symm, fun hne => absurd htag hne, ?_, ?_⟩
  · rw [hrange.2]
    exact fun _ _ hlt => absurd hlt (Nat.not_lt_zero _)
  · rw [hrange.1]
    exact fun _ _ hlt => absurd hlt (Nat.not_lt_zero _)

/-- A text has one node. -/
theorem Heap.Interned.eq_of_text? {h : Heap} (hi : h.Interned) {a b : Address} {s : String}
    (ha : h.IsBlock a) (hb : h.IsBlock b) (hs : h.text? a = some s) (ht : h.text? b = some s) : a = b :=
  Option.some.inj ((hi.strings_of_text? ha hs).symm.trans (hi.strings_of_text? hb ht))

/-- New nodes are in use. -/
theorem Heap.Undergoes.inUse_made {h k : Heap} {roots : List Address} {c : Change} {f : Nat → Address}
    (u : h.Undergoes k roots c f) {i : Nat} (hi : i < c.made.length) : k.InUse (f i) := by
  have hb := List.getElem?_eq_getElem hi
  generalize c.made[i] = b at hb
  cases b with
  | node header words => exact (u.node i header words hb).toInUse
  | text s => exact (u.string i s hb).1

namespace Machine

variable {m m₁ m₂ k l : Machine} {t u : ThreadId} {c d : Effect} {f f' g g' : Nat → Address}
  {a b x y : Address}

/-! ## Squares -/

/-- What an effect makes, records and queues at has to do with live nodes only. -/
structure Local (m : Machine) (e : Effect) : Prop where
  /-- What new nodes hold beside their children is known. -/
  made : ∀ b ∈ e.made, b.IsDefinite
  /-- The channel whose kind of elements is recorded. -/
  kind : ∀ a kind, e.kind = some (a, kind) → m.heap.Live m.roots a
  /-- The queues that threads leave. -/
  leave : ∀ p, e.leave p ≠ 0 → m.heap.Live m.roots p.address
  /-- The queue that the thread joins. -/
  joins : ∀ p, e.joins = some p → m.heap.Live m.roots p.address
  /-- The threads that are woken. -/
  woken : ∀ x ∈ e.woken, x < m.nextThread

/-- Two effects that do not get into each other's way. -/
structure Clear (c d : Effect) : Prop where
  /-- They write different words. -/
  writes : ∀ a i, c.toChange.Writes a i → ¬ d.toChange.Writes a i
  /-- They record the kinds of elements of different channels. -/
  kind : ∀ a kind kind', c.kind = some (a, kind) → d.kind ≠ some (a, kind')
  /-- The second one lets no thread leave a queue that the first one changes. -/
  leave : ∀ p, c.leave p ≠ 0 ∨ c.joins = some p → d.leave p = 0
  /-- The second one lets no thread join a queue that the first one changes. -/
  joins : ∀ p, c.leave p ≠ 0 ∨ c.joins = some p → d.joins ≠ some p
  /-- At most one of them prints. -/
  printed : c.printed = "" ∨ d.printed = ""

theorem Clear.symm (clear : Clear c d) : Clear d c where
  writes := fun a i hd hc => clear.writes a i hc hd
  kind := fun a kind kind' hd hc => clear.kind a kind' kind hc hd
  leave := by
    intro p hp
    by_contra hc
    rcases hp with hp | hp
    · exact hp (clear.leave p (.inl hc))
    · exact clear.joins p (.inl hc) hp
  joins := by
    intro p hp hc
    rcases hp with hp | hp
    · exact hp (clear.leave p (.inr hc))
    · exact clear.joins p (.inr hc) hp
  printed := clear.printed.symm

/-- The turns of two threads in both orders.  The effects of the first thread are made at `f` and `g`, and
those of the second one at `f'` and `g'`. -/
structure Square (m m₁ m₂ k l : Machine) (t u : ThreadId) (c d : Effect) (f f' g g' : Nat → Address) :
    Prop where
  /-- The machine before. -/
  rest : Run.AtRest m
  /-- The threads are different. -/
  ne : t ≠ u
  /-- The number of the next thread is new. -/
  bound : t < m.nextThread ∧ u < m.nextThread
  /-- The threads that wait have lower numbers, too. -/
  queued : ∀ p, ∀ x ∈ m.queue p, x < m.nextThread
  /-- The first thread has the first turn. -/
  left : Turned m m₁ t c f
  /-- The second thread follows. -/
  left' : Turned m₁ k u d f'
  /-- The second thread has the first turn. -/
  right : Turned m m₂ u d g'
  /-- The first thread follows. -/
  right' : Turned m₂ l t c g
  /-- The effect of the first thread. -/
  locals : Local m c
  /-- The effect of the second thread. -/
  locals' : Local m d
  /-- The two effects. -/
  clear : Clear c d

/-- A node after the turns in one order, and the same node after the turns in the other order. -/
inductive Kin (m m₁ m₂ : Machine) (c d : Effect) (f f' g g' : Nat → Address) : Pairing where
  /-- A node that was there, and that both threads left. -/
  | old {a : Address} (live : m.heap.Live m.roots a) (left : m₁.heap.Live m₁.roots a)
      (right : m₂.heap.Live m₂.roots a) : Kin m m₁ m₂ c d f f' g g' a a
  /-- A node that the first thread made. -/
  | first {i : Nat} (hi : i < c.made.length) (left : m₁.heap.Live m₁.roots (f i)) :
      Kin m m₁ m₂ c d f f' g g' (f i) (g i)
  /-- A node that the second thread made. -/
  | second {i : Nat} (hi : i < d.made.length) (right : m₂.heap.Live m₂.roots (g' i)) :
      Kin m m₁ m₂ c d f f' g g' (f' i) (g' i)

theorem Kin.flip (kin : Kin m m₁ m₂ c d f f' g g' a b) : Kin m m₂ m₁ d c g' g f' f b a := by
  cases kin with
  | old live left right => exact .old live right left
  | first hi left => exact .second hi left
  | second hi right => exact .first hi right

namespace Square

variable (s : Square m m₁ m₂ k l t u c d f f' g g')

include s

theorem flip : Square m m₂ m₁ l k u t d c g' g f' f :=
  ⟨s.rest, s.ne.symm, s.bound.symm, s.queued, s.right, s.right', s.left, s.left', s.locals', s.locals,
    s.clear.symm⟩

/-! ## Old nodes -/

/-- The words of an old node are the same in both orders. -/
theorem word_eq (live : m.heap.Live m.roots a) (left : m₁.heap.Live m₁.roots a)
    (right : m₂.heap.Live m₂.roots a) {i : Nat} (hpos : 1 ≤ i) (hlt : i < nodeSize) :
    l.heap.word a i = k.heap.word a i := by
  rw [s.left'.heap.word a i left hpos hlt, s.right'.heap.word a i right hpos hlt]
  by_cases hd : d.toChange.Writes a i
  · rw [Change.wordAt_of_not (s.clear.symm.writes a i hd), s.right.heap.word a i live hpos hlt]
    exact Change.wordAt_of_writes hd _ _
  · rw [Change.wordAt_of_not hd, s.left.heap.word a i live hpos hlt]
    by_cases hc : c.toChange.Writes a i
    · exact Change.wordAt_of_writes hc _ _
    · rw [Change.wordAt_of_not hc, Change.wordAt_of_not hc, s.right.heap.word_of_not live hpos hlt hd]

/-- A kind of elements that the second thread records is recorded in both orders. -/
theorem header_eq_of_kind (live : m.heap.Live m.roots a) (left : m₁.heap.Live m₁.roots a)
    (right : m₂.heap.Live m₂.roots a) {kind : Tag} (hkind : d.kind = some (a, kind)) :
    l.heap.header a = k.heap.header a := by
  have hnone : ∀ kind', c.kind ≠ some (a, kind') := fun kind' hc => s.clear.kind a kind' kind hc hkind
  have hheader := s.left.heap.header a live hnone
  rw [s.left'.heap.kind a kind left hkind, s.right'.heap.header a right hnone,
    s.right.heap.kind a kind live hkind, hheader, Heap.isUnbuffered_congr hheader]

/-- The header of an old node is the same in both orders. -/
theorem header_eq (live : m.heap.Live m.roots a) (left : m₁.heap.Live m₁.roots a)
    (right : m₂.heap.Live m₂.roots a) : l.heap.header a = k.heap.header a := by
  by_cases hd : ∃ kind, d.kind = some (a, kind)
  · obtain ⟨kind, hkind⟩ := hd
    exact s.header_eq_of_kind live left right hkind
  · by_cases hc : ∃ kind, c.kind = some (a, kind)
    · obtain ⟨kind, hkind⟩ := hc
      exact (s.flip.header_eq_of_kind live right left hkind).symm
    · have hd : ∀ kind, d.kind ≠ some (a, kind) := fun kind h => hd ⟨kind, h⟩
      have hc : ∀ kind, c.kind ≠ some (a, kind) := fun kind h => hc ⟨kind, h⟩
      rw [s.left'.heap.header a left hd, s.left.heap.header a live hc, s.right'.heap.header a right hc,
        s.right.heap.header a live hd]

/-- A child of an old node was live after the first turn. -/
theorem live_left (live : m.heap.Live m.roots a) (left : m₁.heap.Live m₁.roots a) {i : Nat}
    (hle : (m.heap.header a).childRange.1 ≤ i) (hlt : i < (m.heap.header a).childRange.2)
    (hpos : 1 ≤ i) (hnode : i < nodeSize) :
    k.heap.word a i = vacant ∨ m₁.heap.Live m₁.roots (k.heap.word a i) := by
  rw [← s.left.heap.childRange live] at hle hlt
  rw [s.left'.heap.word a i left hpos hnode]
  rcases d.toChange.wordAt_cases m₁.heap a i with hw | hw
  · exact s.left'.child a i _ hw hle hlt
  · rw [hw]
    exact s.left.rest.heap.live_word s.left.rest.inUse_root left hle hlt

/-- A child of an old node was live before. -/
theorem live_before (live : m.heap.Live m.roots a) (left : m₁.heap.Live m₁.roots a) {i : Nat}
    (hle : (m.heap.header a).childRange.1 ≤ i) (hlt : i < (m.heap.header a).childRange.2)
    (hpos : 1 ≤ i) (hnode : i < nodeSize) :
    k.heap.word a i = vacant ∨ m.heap.Live m.roots (k.heap.word a i) := by
  rw [s.left'.heap.word a i left hpos hnode]
  rcases d.toChange.wordAt_cases m₁.heap a i with hw | hw
  · exact s.right.child a i _ hw hle hlt
  · rw [hw, s.left.heap.word a i live hpos hnode]
    rcases c.toChange.wordAt_cases m.heap a i with hw | hw
    · exact s.left.child a i _ hw hle hlt
    · rw [hw]
      exact s.rest.heap.live_word s.rest.inUse_root live hle hlt

/-! ## The ends of the square -/

/-- The kin that are live at both ends. -/
def ends (_ : Square m m₁ m₂ k l t u c d f f' g g') : Pairing := fun a b =>
  k.heap.Live k.roots a ∧ l.heap.Live l.roots b ∧ Kin m m₁ m₂ c d f f' g g' a b

theorem ends_flip (hab : s.ends a b) : s.flip.ends b a := ⟨hab.2.1, hab.1, hab.2.2.flip⟩

/-- Old nodes look the same at both ends. -/
theorem similar_old (hk : k.heap.Live k.roots a) (hl : l.heap.Live l.roots a)
    (live : m.heap.Live m.roots a) (left : m₁.heap.Live m₁.roots a)
    (right : m₂.heap.Live m₂.roots a) : Similar s.ends k.heap l.heap a a := by
  have hheader := s.header_eq live left right
  have hrange : (k.heap.header a).childRange = (m.heap.header a).childRange :=
    (s.left'.heap.childRange left).trans (s.left.heap.childRange live)
  have hin := s.rest.heap.inUse_of_live s.rest.inUse_root live
  refine ⟨congrArg Header.tag hheader, ?_, fun _ => hheader, fun i hpos hlt => ?_, fun i hle hlt => ?_⟩
  · rw [s.left'.heap.text a left, s.left.heap.text a live, s.right'.heap.text a right,
      s.right.heap.text a live]
  · exact s.word_eq live left right hpos (Nat.lt_of_lt_of_le hlt (Heap.dataEnd_le _))
  · have hle' := hrange ▸ hle
    have hlt' := hrange ▸ hlt
    have hpos := Nat.le_trans (Header.one_le_childRange_fst (Nat.lt_of_le_of_lt hle hlt)) hle
    have hnode := Nat.lt_of_lt_of_le hlt' (s.rest.heap.typed a hin).range
    have hword := s.word_eq live left right hpos hnode
    rw [hword]
    by_cases hvacant : k.heap.word a i = vacant
    · exact .inr ⟨hvacant, hvacant⟩
    · have hlend := s.right'.rest.heap.live_word s.right'.rest.inUse_root hl (hheader ▸ hle) (hheader ▸ hlt)
      have hright := s.flip.live_left live right hle' hlt' hpos hnode
      rw [hword] at hlend hright
      refine .inl ⟨?_, hlend.resolve_left hvacant, .old ?_ ?_ ?_⟩
      · exact (s.left'.rest.heap.live_word s.left'.rest.inUse_root hk hle hlt).resolve_left hvacant
      · exact (s.live_before live left hle' hlt' hpos hnode).resolve_left hvacant
      · exact (s.live_left live left hle' hlt' hpos hnode).resolve_left hvacant
      · exact hright.resolve_left hvacant

/-- A new node of the first thread is not changed by the second one. -/
theorem holds_new {i : Nat} {header : Header} {words : List Ref}
    (hi : c.made[i]? = some (.node header words)) (left : m₁.heap.Live m₁.roots (f i)) :
    Heap.Holds k.heap (f i) header (words.map (Ref.placed f)) := by
  have new := s.left.heap.node i header words hi
  refine new.toHolds.of_same new.fits (s.left'.heap.same left (fun kind hk => ?_) fun j ⟨w, hw⟩ => ?_)
  · exact new.not_live (s.locals'.kind _ kind hk)
  · exact new.not_live (s.right.node _ j w hw).1

/-- The children of a new node of the first thread are kin. -/
theorem child_new {i j : Nat} {header : Header} {words : List Ref} {r : Ref}
    (hi : c.made[i]? = some (.node header words)) (left : m₁.heap.Live m₁.roots (f i))
    (hk : k.heap.Live k.roots (f i)) (hl : l.heap.Live l.roots (g i)) (hr : words[j]? = some r)
    (hle : header.childRange.1 ≤ j + 1) (hlt : j + 1 < header.childRange.2) :
    s.ends.Child (r.placed f) (r.placed g) := by
  have new := s.left.heap.node i header words hi
  have new' := s.right'.heap.node i header words hi
  have holds := s.holds_new hi left
  have hmem := List.mem_of_getElem? hi
  have hword : ∀ φ : Nat → Address, (words.map (Ref.placed φ))[j]? = some (r.placed φ) := fun φ => by
    rw [List.getElem?_map, hr]
    rfl
  -- The child is found in all three heaps that have the node.
  have hmiddle := s.left.rest.heap.live_word s.left.rest.inUse_root left (new.header ▸ hle)
    (new.header ▸ hlt)
  have hkend := s.left'.rest.heap.live_word s.left'.rest.inUse_root hk (holds.header ▸ hle)
    (holds.header ▸ hlt)
  have hlend := s.right'.rest.heap.live_word s.right'.rest.inUse_root hl (new'.header ▸ hle)
    (new'.header ▸ hlt)
  rw [new.word j _ (hword f)] at hmiddle
  rw [holds.word j _ (hword f)] at hkend
  rw [new'.word j _ (hword g)] at hlend
  have before := s.left.made header words hmem j r hr hle hlt
  have after := s.right'.made header words hmem j r hr hle hlt
  by_cases hvacant : r = .known vacant
  · subst hvacant
    exact .inr ⟨rfl, rfl⟩
  · have before := before.resolve_left hvacant
    have after := after.resolve_left hvacant
    cases r with
    | known w =>
      have hne : w ≠ vacant := fun h => hvacant (congrArg Ref.known h)
      exact .inl ⟨hkend.resolve_left hne, hlend.resolve_left hne,
        .old before (hmiddle.resolve_left hne) after⟩
    | made n =>
      have hnew : f n ≠ vacant := s.left.rest.heap.ne_vacant (s.left.heap.inUse_made before).toIsBlock
      have hnew' : g n ≠ vacant := s.right'.rest.heap.ne_vacant (s.right'.heap.inUse_made after).toIsBlock
      exact .inl ⟨hkend.resolve_left hnew, hlend.resolve_left hnew',
        .first before (hmiddle.resolve_left hnew)⟩

/-- New nodes of the first thread look the same at both ends. -/
theorem similar_first {i : Nat} (hi : i < c.made.length) (left : m₁.heap.Live m₁.roots (f i))
    (hk : k.heap.Live k.roots (f i)) (hl : l.heap.Live l.roots (g i)) :
    Similar s.ends k.heap l.heap (f i) (g i) := by
  have hb := List.getElem?_eq_getElem hi
  cases hmade : c.made[i] with
  | text text =>
    rw [hmade] at hb
    obtain ⟨-, htag, htext⟩ := s.left.heap.string i text hb
    obtain ⟨-, htag', htext'⟩ := s.right'.heap.string i text hb
    exact Heap.similar_of_text ((s.left'.heap.tag left).trans htag)
      ((s.left'.heap.text _ left).trans htext) htag' htext'
  | node header words =>
    rw [hmade] at hb
    have hmem := List.mem_of_getElem? hb
    obtain ⟨hstring, hend, hdata⟩ := s.locals.made _ hmem header words rfl
    refine (s.holds_new hb left).similar (s.right'.heap.node i header words hb).toHolds hstring {
      length := by rw [List.length_map, List.length_map]
      range := by
        rw [List.length_map]
        exact s.left.range header words hmem
      dataEnd := by
        rw [List.length_map]
        exact hend
      data := fun j hj => ?_
      child := fun j v w hle hlt hv hw => ?_ }
    · rw [List.getElem?_map, List.getElem?_map]
      cases hr : words[j]? with
      | none => rfl
      | some r =>
        obtain ⟨w, rfl⟩ := hdata j r hj hr
        rfl
    · rw [List.getElem?_map] at hv hw
      obtain ⟨r, hr, rfl⟩ := Option.map_eq_some_iff.1 hv
      rw [hr] at hw
      obtain rfl := Option.some.inj hw
      exact s.child_new hb left hk hl hr hle hlt

/-- Kin look the same. -/
theorem similar (hab : s.ends a b) : Similar s.ends k.heap l.heap a b := by
  obtain ⟨hk, hl, kin⟩ := hab
  cases kin with
  | old live left right => exact s.similar_old hk hl live left right
  | first hi left => exact s.similar_first hi left hk hl
  | second hi right =>
    exact (s.flip.similar_first hi right hl hk).flip.imp fun v w hvw => s.flip.ends_flip hvw

/-- Of two kin that are no texts, the first one tells where both of them come from: whatever is new was
not live. -/
theorem origin (kin : Kin m m₁ m₂ c d f f' g g' a b) (hk : k.heap.Live k.roots a)
    (htag : k.heap.tag a ≠ .string) :
    (m₁.heap.Live m₁.roots a ∧ m.heap.Live m.roots a ∧ m₂.heap.Live m₂.roots a ∧ b = a) ∨
      (m₁.heap.Live m₁.roots a ∧ ¬ m.heap.Live m.roots a ∧ ∃ i header words,
        c.made[i]? = some (.node header words) ∧ a = f i ∧ b = g i) ∨
      (¬ m₁.heap.Live m₁.roots a ∧ m₂.heap.Live m₂.roots b ∧ ∃ i header words,
        d.made[i]? = some (.node header words) ∧ a = f' i ∧ b = g' i) := by
  cases kin with
  | old live left right => exact .inl ⟨left, live, right, rfl⟩
  | @first i hi left =>
    have hb := List.getElem?_eq_getElem hi
    generalize c.made[i] = blueprint at hb
    cases blueprint with
    | node header words =>
      exact .inr (.inl ⟨left, (s.left.heap.node i header words hb).not_live, i, header, words, hb, rfl, rfl⟩)
    | text text =>
      exact absurd ((s.left'.heap.tag left).trans (s.left.heap.string i text hb).2.1) htag
  | @second i hi right =>
    have hb := List.getElem?_eq_getElem hi
    generalize d.made[i] = blueprint at hb
    cases blueprint with
    | node header words =>
      exact .inr (.inr ⟨(s.left'.heap.node i header words hb).not_live, right, i, header, words, hb, rfl, rfl⟩)
    | text text => exact absurd (s.left'.heap.string i text hb).2.1 htag

/-- No node has two kin. -/
theorem right_unique (hab : s.ends a b) (hay : s.ends a y) : b = y := by
  by_cases htag : k.heap.tag a = .string
  · -- A text has one node.
    have hin := s.left'.rest.heap.inUse_of_live s.left'.rest.inUse_root hab.1
    obtain ⟨text, htext, -⟩ := s.left'.rest.heap.text a hin.toIsBlock htag
    have htext : k.heap.text? a = some text := by rw [Heap.text?, if_pos htag, htext]
    have hblock := fun {z} (hz : l.heap.Live l.roots z) =>
      (s.right'.rest.heap.inUse_of_live s.right'.rest.inUse_root hz).toIsBlock
    exact s.right'.rest.heap.toInterned.eq_of_text? (hblock hab.2.1) (hblock hay.2.1)
      ((s.similar hab).text.trans htext) ((s.similar hay).text.trans htext)
  · rcases s.origin hab.2.2 hab.1 htag with ⟨hm₁, hm, -, rfl⟩ | ⟨hm₁, hm, i, _, _, hi, rfl, rfl⟩ |
      ⟨hm₁, -, i, _, _, hi, rfl, rfl⟩
    · rcases s.origin hay.2.2 hab.1 htag with ⟨-, -, -, rfl⟩ | ⟨-, hnot, -⟩ | ⟨hnot, -⟩
      · rfl
      · exact absurd hm hnot
      · exact absurd hm₁ hnot
    · rcases s.origin hay.2.2 hab.1 htag with ⟨-, hlive, -⟩ | ⟨-, -, j, _, _, hj, heq, rfl⟩ | ⟨hnot, -⟩
      · exact absurd hlive hm
      · rw [s.left.heap.distinct i j _ _ _ _ hi hj heq]
      · exact absurd hm₁ hnot
    · rcases s.origin hay.2.2 hab.1 htag with ⟨hlive, -⟩ | ⟨hlive, -⟩ | ⟨-, -, j, _, _, hj, heq, rfl⟩
      · exact absurd hlive hm₁
      · exact absurd hlive hm₁
      · rw [s.left'.heap.distinct i j _ _ _ _ hi hj heq]

/-- The heaps at the ends are the same up to the addresses of kin. -/
theorem matched : Matched s.ends k.heap l.heap where
  left_inUse := fun _ _ hab => s.left'.rest.heap.inUse_of_live s.left'.rest.inUse_root hab.1
  right_inUse := fun _ _ hab => s.right'.rest.heap.inUse_of_live s.right'.rest.inUse_root hab.2.1
  similar := fun _ _ => s.similar
  right_unique := fun _ _ _ => s.right_unique
  left_unique := fun _ _ _ hab hxb => s.flip.right_unique (s.ends_flip hab) (s.ends_flip hxb)
  bottom := by
    rw [s.right'.heap.bottom, s.right.heap.bottom, s.left'.heap.bottom, s.left.heap.bottom]
  permanent := by
    intro a hmod hlt
    have hm₁ : m₁.heap.bottom = k.heap.bottom := s.left'.heap.bottom.symm
    have hm : m.heap.bottom = k.heap.bottom := s.left.heap.bottom.symm.trans hm₁
    have hm₂ : m₂.heap.bottom = k.heap.bottom := s.right.heap.bottom.trans hm
    have hl : l.heap.bottom = k.heap.bottom := s.right'.heap.bottom.trans hm₂
    exact ⟨.permanent s.left'.rest.heap.toIntact hmod hlt,
      .permanent s.right'.rest.heap.toIntact hmod (hl ▸ hlt),
      .old (.permanent s.rest.heap.toIntact hmod (hm ▸ hlt))
        (.permanent s.left.rest.heap.toIntact hmod (hm₁ ▸ hlt))
        (.permanent s.right.rest.heap.toIntact hmod (hm₂ ▸ hlt))⟩

end Square

end Machine

end ChannelMachine
