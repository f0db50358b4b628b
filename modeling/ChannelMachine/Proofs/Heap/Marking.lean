import ChannelMachine.Proofs.Heap.Block

/-!
# Marking

`Reach words pending` are the addresses that marking follows from the pending ones through the
children of nodes.  `mark_spec` says what marking does where all of them are nodes without a mark
(`Unmarked`): exactly the headers of the addresses that can be reached get a mark, and no other
word of the arena changes.

The proof follows the recursion of `mark`.  `Marked words now done` is the state in between: the
words are those at the start but for the marks of the addresses in `done`.  The children of a
node in `done` are in `done` or pending, so when nothing is pending `done` is closed.
-/

namespace ChannelMachine

/-- The children do not depend on the mark. -/
theorem Header.childRange_mark (header : Header) (mark : UInt8) :
    childRange { header with mark } = header.childRange := rfl

/-- No word of a header is a child. -/
theorem Header.one_le_childRange_fst {header : Header}
    (hlt : header.childRange.1 < header.childRange.2) : 1 ≤ header.childRange.1 := by
  unfold childRange at hlt ⊢
  split at hlt <;> simp_all

theorem Header.unpack_marked (w : Nat) : unpack (marked w) = { unpack w with mark := 1 } := by
  rw [marked, unpack_pack]

namespace Heap

/-- The children of a node are the words in its range of children that are not vacant. -/
theorem mem_children {words : Array Nat} {a : Nat} {c : Address} :
    c ∈ children words a ↔ c ≠ vacant ∧ ∃ i,
      (Header.unpack (words.getD a 0)).childRange.1 ≤ i ∧
      i < (Header.unpack (words.getD a 0)).childRange.2 ∧
      a + i < words.size ∧ words.getD (a + i) 0 = c := by
  rw [children, List.mem_filter, Array.toList_extract, List.mem_iff_getElem?]
  simp only [decide_eq_true_eq]
  constructor
  · rintro ⟨⟨n, hn⟩, hc⟩
    refine ⟨hc, (Header.unpack (words.getD a 0)).childRange.1 + n, by omega, ?_⟩
    rw [List.extract_eq_take_drop, List.getElem?_take] at hn
    split at hn
    next hlt =>
      rw [List.getElem?_drop, Array.getElem?_toList] at hn
      have hsize := (Array.getElem?_eq_some_iff.1 hn).1
      rw [Nat.add_assoc] at hn hsize
      exact ⟨by omega, hsize, by rw [Array.getD_eq_getD_getElem?, hn, Option.getD_some]⟩
    next => cases hn
  · rintro ⟨hc, i, hle, hlt, hsize, hi⟩
    refine ⟨⟨i - (Header.unpack (words.getD a 0)).childRange.1, ?_⟩, hc⟩
    have hsum : a + (Header.unpack (words.getD a 0)).childRange.1 +
        (i - (Header.unpack (words.getD a 0)).childRange.1) = a + i := by omega
    rw [List.extract_eq_take_drop, List.getElem?_take, if_pos (by omega), List.getElem?_drop, hsum,
      Array.getElem?_toList, Array.getElem?_eq_getElem hsize]
    rw [Array.getD_eq_getD_getElem?, Array.getElem?_eq_getElem hsize] at hi
    exact congrArg some hi

/-! ## What can be reached -/

/-- An address that can be reached from the pending ones. -/
inductive Reach (words : Array Nat) (pending : List Address) : Address → Prop where
  /-- It is pending. -/
  | pending {a : Address} : a ∈ pending → Reach words pending a
  /-- It is a child of a node that can be reached. -/
  | child {a c : Address} : Reach words pending a → c ∈ children words a → Reach words pending c

/-- What can be reached from addresses that can be reached can be reached. -/
theorem Reach.trans {words : Array Nat} {first second : List Address} {a : Address}
    (ha : Reach words second a) (h : ∀ b ∈ second, Reach words first b) :
    Reach words first a := by
  induction ha with
  | pending hb => exact h _ hb
  | child _ hc ih => exact .child ih hc

theorem Reach.mono {words : Array Nat} {first second : List Address} {a : Address}
    (ha : Reach words second a) (h : ∀ b ∈ second, b ∈ first) : Reach words first a :=
  ha.trans fun b hb => .pending (h b hb)

/-! ## The state in between -/

/-- A set of nodes without marks that holds the children of its members. -/
structure Unmarked (words : Array Nat) (nodes : Address → Prop) : Prop where
  /-- They are multiples of the node size. -/
  aligned : ∀ a : Nat, nodes a → a % nodeSize = 0
  /-- They are inside of the arena. -/
  inside : ∀ a : Nat, nodes a → a + nodeSize ≤ words.size
  /-- Their children are inside of their blocks. -/
  range : ∀ a, nodes a → (Header.unpack (words.getD a 0)).childRange.2 ≤ nodeSize
  /-- They have no mark. -/
  mark : ∀ a, nodes a → Header.isMarked (words.getD a 0) = false
  /-- Their children are members. -/
  child : ∀ a c, nodes a → c ∈ children words a → nodes c

/-- The words now are those at the start, but for the marks of the addresses that are done. -/
structure Marked (words now : Array Nat) (done : Address → Prop) : Prop where
  /-- The arena has its size. -/
  size : now.size = words.size
  /-- What is done is marked. -/
  mark : ∀ a, done a → now.getD a 0 = Header.marked (words.getD a 0)
  /-- All else is as it was. -/
  other : ∀ i, ¬ done i → now.getD i 0 = words.getD i 0

namespace Marked

theorem start (words : Array Nat) : Marked words words fun _ => False :=
  ⟨rfl, fun _ h => h.elim, fun _ _ => rfl⟩

/-- Marking one address more. -/
theorem insert {words now : Array Nat} {done : Address → Prop} (m : Marked words now done)
    {a : Address} (ha : a < now.size) (hdone : ¬ done a) :
    Marked words (now.set a (Header.marked now[a])) fun b => done b ∨ b = a := by
  have hget : now[a] = words.getD a 0 := by
    rw [← m.other a hdone, Array.getD_eq_getD_getElem?, Array.getElem?_eq_getElem ha,
      Option.getD_some]
  refine ⟨by rw [Array.size_set, m.size], ?_, ?_⟩
  · intro b hb
    rw [Array.getD_eq_getD_getElem?, Array.getElem?_set]
    by_cases hab : a = b
    · rw [if_pos hab, Option.getD_some, hget, hab]
    · rw [if_neg hab, ← Array.getD_eq_getD_getElem?]
      exact m.mark b (hb.resolve_right fun h => hab h.symm)
  · intro i hi
    rw [Array.getD_eq_getD_getElem?, Array.getElem?_set,
      if_neg fun h => hi (.inr h.symm), ← Array.getD_eq_getD_getElem?]
    exact m.other i fun h => hi (.inl h)

/-- A member is marked if and only if it is done. -/
theorem isMarked_iff {words now : Array Nat} {nodes done : Address → Prop}
    (m : Marked words now done) (u : Unmarked words nodes) {a : Address} (ha : nodes a) :
    Header.isMarked (now.getD a 0) = true ↔ done a := by
  by_cases hd : done a
  · rw [m.mark a hd, Header.isMarked_marked]
    exact ⟨fun _ => hd, fun _ => rfl⟩
  · rw [m.other a hd, u.mark a ha]
    exact ⟨fun h => Bool.noConfusion h, fun h => absurd h hd⟩

/-- Marks leave the children of a member as they were. -/
theorem mem_children_iff {words now : Array Nat} {nodes done : Address → Prop}
    (m : Marked words now done) (u : Unmarked words nodes) (hdone : ∀ a, done a → nodes a)
    {a : Nat} {c : Address} (ha : nodes a) : c ∈ children now a ↔ c ∈ children words a := by
  have hrange : (Header.unpack (now.getD a 0)).childRange =
      (Header.unpack (words.getD a 0)).childRange := by
    by_cases hd : done a
    · rw [m.mark a hd, Header.unpack_marked, Header.childRange_mark]
    · rw [m.other a hd]
  have hword : ∀ i, (Header.unpack (words.getD a 0)).childRange.1 ≤ i →
      i < (Header.unpack (words.getD a 0)).childRange.2 →
      now.getD (a + i) 0 = words.getD (a + i) 0 := by
    intro i hle hlt
    have hpos := Header.one_le_childRange_fst (Nat.lt_of_le_of_lt hle hlt)
    have hend := u.range a ha
    have hmod : a % 10 = 0 := u.aligned a ha
    have hsize : nodeSize = 10 := rfl
    refine m.other _ fun hd => ?_
    have : (a + i) % 10 = 0 := u.aligned _ (hdone _ hd)
    omega
  rw [mem_children, mem_children, hrange, m.size]
  refine and_congr_right fun _ => exists_congr fun i => ?_
  constructor
  · rintro ⟨hle, hlt, hsize, hc⟩
    exact ⟨hle, hlt, hsize, hword i hle hlt ▸ hc⟩
  · rintro ⟨hle, hlt, hsize, hc⟩
    exact ⟨hle, hlt, hsize, (hword i hle hlt).trans hc⟩

end Marked

/-! ## The result -/

/-- Marking from a state in between: afterwards all that was pending is done, and `done` is closed
under children.  Nothing else is done but what can be reached. -/
theorem mark_from {words : Array Nat} {nodes : Address → Prop} (u : Unmarked words nodes)
    (now : Array Nat) (pending : List Address) :
    ∀ done : Address → Prop, Marked words now done → (∀ a, done a → nodes a) →
      (∀ a ∈ pending, nodes a) →
      (∀ a c, done a → c ∈ children words a → done c ∨ c ∈ pending) →
      ∃ final : Address → Prop, Marked words (mark now pending) final ∧
        (∀ a, done a → final a) ∧ (∀ a ∈ pending, final a) ∧
        (∀ a c, final a → c ∈ children words a → final c) ∧
        (∀ a, final a → done a ∨ Reach words pending a) := by
  fun_induction mark now pending with
  | case1 now =>
    intro done m _ _ hclosed
    refine ⟨done, m, fun _ h => h, by simp, ?_, fun _ h => .inl h⟩
    intro a c ha hc
    exact (hclosed a c ha hc).resolve_right (by simp)
  | case2 now a rest ha hmark pending ih =>
    intro done m hnodes hpending hclosed
    have hna : nodes a := hpending a (by simp)
    have hget : now.getD a 0 = now[a] := by
      rw [Array.getD_eq_getD_getElem?, Array.getElem?_eq_getElem ha, Option.getD_some]
    have hnot : ¬ done a := by
      intro hd
      rw [← m.isMarked_iff u hna, hget, hmark] at hd
      cases hd
    have hmem : ∀ c, c ∈ pending ↔ c ∈ children words a ∨ c ∈ rest := by
      intro c
      simp only [pending, List.mem_append, List.mem_reverse, m.mem_children_iff u hnodes hna]
    obtain ⟨final, hm, hdone, hpend, hclosed', hreach⟩ :=
      ih (fun b => done b ∨ b = a) (m.insert ha hnot)
        (by
          rintro b (hb | rfl)
          · exact hnodes b hb
          · exact hna)
        (by
          intro b hb
          rcases (hmem b).1 hb with hb | hb
          · exact u.child a b hna hb
          · exact hpending b (by simp [hb]))
        (by
          rintro b c (hb | rfl) hc
          · rcases hclosed b c hb hc with hd | hp
            · exact .inl (.inl hd)
            · rcases List.mem_cons.1 hp with rfl | hp
              · exact .inl (.inr rfl)
              · exact .inr ((hmem c).2 (.inr hp))
          · exact .inr ((hmem c).2 (.inl hc)))
    refine ⟨final, hm, fun b hb => hdone b (.inl hb), ?_, hclosed', ?_⟩
    · intro b hb
      rcases List.mem_cons.1 hb with rfl | hb
      · exact hdone b (.inr rfl)
      · exact hpend b ((hmem b).2 (.inr hb))
    · intro b hb
      rcases hreach b hb with (hd | rfl) | hr
      · exact .inl hd
      · exact .inr (.pending (by simp))
      · refine .inr (hr.trans fun c hc => ?_)
        rcases (hmem c).1 hc with hc | hc
        · exact .child (.pending (by simp)) hc
        · exact .pending (by simp [hc])
  | case3 now a rest ha hmark ih =>
    intro done m hnodes hpending hclosed
    have hna : nodes a := hpending a (by simp)
    have hget : now.getD a 0 = now[a] := by
      rw [Array.getD_eq_getD_getElem?, Array.getElem?_eq_getElem ha, Option.getD_some]
    have hda : done a := by
      rw [← m.isMarked_iff u hna, hget]
      simpa using hmark
    obtain ⟨final, hm, hdone, hpend, hclosed', hreach⟩ :=
      ih done m hnodes (fun b hb => hpending b (by simp [hb])) (by
        intro b c hb hc
        rcases hclosed b c hb hc with hd | hp
        · exact .inl hd
        · rcases List.mem_cons.1 hp with rfl | hp
          · exact .inl hda
          · exact .inr hp)
    refine ⟨final, hm, hdone, ?_, hclosed', ?_⟩
    · intro b hb
      rcases List.mem_cons.1 hb with rfl | hb
      · exact hdone b hda
      · exact hpend b hb
    · intro b hb
      exact (hreach b hb).imp_right fun hr => hr.mono fun c hc => by simp [hc]
  | case4 now a rest ha ih =>
    intro done m hnodes hpending hclosed
    have hinside := u.inside a (hpending a (by simp))
    have hpos : 0 < nodeSize := by decide
    rw [m.size] at ha
    exact absurd (Nat.lt_of_lt_of_le (Nat.lt_add_of_pos_right hpos) hinside) ha

/-- Marking marks exactly what can be reached. -/
theorem mark_spec {words : Array Nat} {nodes : Address → Prop} (u : Unmarked words nodes)
    {pending : List Address} (hpending : ∀ a ∈ pending, nodes a) :
    Marked words (mark words pending) (Reach words pending) := by
  obtain ⟨final, hm, -, hpend, hclosed, hreach⟩ :=
    mark_from u words pending (fun _ => False) (.start words) (fun _ h => h.elim) hpending
      (fun _ _ h => h.elim)
  have hfinal : final = Reach words pending := by
    funext a
    refine propext ⟨fun ha => (hreach a ha).resolve_left id, fun ha => ?_⟩
    induction ha with
    | pending ha => exact hpend _ ha
    | child _ hc ih => exact hclosed _ _ ih hc
  exact hfinal ▸ hm

/-- What can be reached from members is a member. -/
theorem Unmarked.of_reach {words : Array Nat} {nodes : Address → Prop} (u : Unmarked words nodes)
    {pending : List Address} (hpending : ∀ a ∈ pending, nodes a) {a : Address}
    (ha : Reach words pending a) : nodes a := by
  induction ha with
  | pending ha => exact hpending _ ha
  | child _ hc ih => exact u.child _ _ ih hc

end Heap

end ChannelMachine
