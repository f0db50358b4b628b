import ChannelMachine.Proofs.Heap.Building
import ChannelMachine.Proofs.Heap.Updating

/-!
# Changes of a heap

What one instruction does to the heap can be told without addresses that only the allocator knows.  A
`Change` lists the nodes that are made, with references to one another by their place in the list, and
the words that are written.  `Undergoes` is the relation of two heaps: whatever was live is there, with
the words that the change gives it, and the nodes of the list stand at some addresses that were not live.

Which nodes a collection has freed meanwhile is not told, and it makes no difference: what is live
afterwards was live before or is one of the new nodes (`Undergoes.live_or_made`).
-/

namespace ChannelMachine

/-! ## Changes -/

/-- A word of a new node or an address in a register, before the new nodes have addresses. -/
inductive Ref where
  /-- A word that is known beforehand. -/
  | known (w : Nat)
  /-- The address of a new node. -/
  | made (i : Nat)
deriving DecidableEq

/-- The word, where the new nodes are. -/
def Ref.placed (f : Nat → Address) : Ref → Nat
  | known w => w
  | made i => f i

/-- Known words stay what they are. -/
theorem map_placed_known (f : Nat → Address) (ws : List Nat) : (ws.map Ref.known).map (Ref.placed f) = ws := by
  rw [List.map_map]
  exact List.map_id ws

/-- A node that is made. -/
inductive Blueprint where
  /-- A new node with this header and these words behind it. -/
  | node (header : Header) (words : List Ref)
  /-- The node of a text, which may be there already. -/
  | text (s : String)
deriving DecidableEq

/-- A new number. -/
def Blueprint.number (x : Number) : Blueprint := .node (.fresh .number 2) [.known x.bits.toNat]

/-- What an instruction does to the heap. -/
structure Change where
  /-- The nodes that are made. -/
  made : List Blueprint := []
  /-- The words that are written: the node, the index of the word, and the new word. -/
  writes : List (Address × Nat × Nat) := []
  /-- The channel whose kind of elements is recorded, and the kind. -/
  kind : Option (Address × Tag) := none

namespace Change

/-- A word of a node afterwards. -/
def wordAt (c : Change) (h : Heap) (a : Address) (i : Nat) : Nat :=
  match c.writes.find? fun w => w.1 = a ∧ w.2.1 = i with
  | some w => w.2.2
  | none => h.word a i

/-- A word is written. -/
def Writes (c : Change) (a : Address) (i : Nat) : Prop := ∃ w, (a, i, w) ∈ c.writes

/-- The other words stay. -/
theorem wordAt_of_not {c : Change} {a : Address} {i : Nat} (hnot : ¬ c.Writes a i) (h : Heap) :
    c.wordAt h a i = h.word a i := by
  unfold wordAt
  split
  next w hw =>
    have heq := List.find?_some hw
    rw [decide_eq_true_eq] at heq
    obtain ⟨rfl, rfl⟩ := heq
    exact absurd ⟨w.2.2, List.mem_of_find?_eq_some hw⟩ hnot
  next => rfl

/-- A word afterwards is one that was written, or it was there. -/
theorem wordAt_cases (c : Change) (h : Heap) (a : Address) (i : Nat) :
    (a, i, c.wordAt h a i) ∈ c.writes ∨ c.wordAt h a i = h.word a i := by
  unfold wordAt
  split
  next w hw =>
    have heq := List.find?_some hw
    rw [decide_eq_true_eq] at heq
    obtain ⟨rfl, rfl⟩ := heq
    exact .inl (List.mem_of_find?_eq_some hw)
  next => exact .inr rfl

/-- A word of a node of which one word is written. -/
theorem wordAt_single (a : Address) (i w : Nat) (h : Heap) (j : Nat) :
    wordAt { writes := [(a, i, w)] } h a j = if i = j then w else h.word a j := by
  unfold wordAt
  by_cases hij : i = j
  · rw [List.find?_cons_of_pos (by simp [hij]), if_pos hij]
  · rw [List.find?_cons_of_neg (by simp [hij]), if_neg hij]
    rfl

/-- What is written does not depend on the heap. -/
theorem wordAt_of_writes {c : Change} {a : Address} {i : Nat} (hw : c.Writes a i) (h k : Heap) :
    c.wordAt h a i = c.wordAt k a i := by
  obtain ⟨w, hw⟩ := hw
  unfold wordAt
  split
  next => rfl
  next hnone => exact absurd (List.find?_eq_none.1 hnone _ hw) (by simp)

end Change

namespace Heap

/-- What is live through live nodes is live. -/
theorem Live.trans {h : Heap} (hi : h.Intact) {roots roots' : List Address} {a : Address}
    (ha : h.Live roots' a) (hroots : ∀ b ∈ roots', h.Live roots b) : h.Live roots a :=
  ha.elim hi hroots (fun _ => .building) (fun _ => .permanent hi) fun _ _ _ hc ih => .child ih hc

/-- An address that a change may use: it is live, or it is that of a new node. -/
def Stands (h : Heap) (roots : List Address) (n : Nat) : Ref → Prop
  | .known a => h.Live roots a
  | .made i => i < n

/-- A word that a node may have as a child. -/
def StandsIn (h : Heap) (roots : List Address) (n : Nat) (r : Ref) : Prop :=
  r = .known vacant ∨ h.Stands roots n r

/-- The children that a change gives to nodes are live, or they are new. -/
structure Affords (h : Heap) (roots : List Address) (c : Change) : Prop where
  /-- The children of new nodes are among their words. -/
  range : ∀ header words, .node header words ∈ c.made → header.childRange.2 ≤ words.length + 1
  /-- The children of new nodes. -/
  made : ∀ header words, .node header words ∈ c.made → ∀ j r, words[j]? = some r →
    header.childRange.1 ≤ j + 1 → j + 1 < header.childRange.2 → h.StandsIn roots c.made.length r
  /-- The nodes that are written. -/
  node : ∀ a i w, (a, i, w) ∈ c.writes → h.Live roots a ∧ 1 ≤ i ∧ i < nodeSize
  /-- The words that are written. -/
  child : ∀ a i w, (a, i, w) ∈ c.writes → (h.header a).childRange.1 ≤ i →
    i < (h.header a).childRange.2 → w = vacant ∨ h.Live roots w

section Affords

variable {h : Heap} {roots : List Address}

/-- The children of a node that is made are live, or they are among the `n` new nodes. -/
def Furnishes (h : Heap) (roots : List Address) (n : Nat) (b : Blueprint) : Prop :=
  ∀ header words, b = .node header words → header.childRange.2 ≤ words.length + 1 ∧
    ∀ j r, words[j]? = some r → header.childRange.1 ≤ j + 1 → j + 1 < header.childRange.2 →
      h.StandsIn roots n r

theorem furnishes_text (s : String) {n : Nat} : h.Furnishes roots n (.text s) := by
  intro _ _ heq
  cases heq

theorem furnishes_node {header : Header} {words : List Ref} {n : Nat}
    (range : header.childRange.2 ≤ words.length + 1)
    (child : ∀ j r, words[j]? = some r → header.childRange.1 ≤ j + 1 → j + 1 < header.childRange.2 →
      h.StandsIn roots n r) : h.Furnishes roots n (.node header words) := by
  intro _ _ heq
  obtain ⟨rfl, rfl⟩ := Blueprint.node.inj heq
  exact ⟨range, child⟩

/-- A change of which nothing is written affords what it makes. -/
theorem Affords.of_made {made : List Blueprint}
    (furnishes : ∀ b ∈ made, h.Furnishes roots made.length b) : h.Affords roots { made } where
  range := fun header words hmem => (furnishes _ hmem header words rfl).1
  made := fun header words hmem => (furnishes _ hmem header words rfl).2
  node := fun _ _ _ hw => absurd hw List.not_mem_nil
  child := fun _ _ _ hw => absurd hw List.not_mem_nil

/-- A change that makes nothing and writes nothing. -/
theorem Affords.nothing : h.Affords roots {} := .of_made fun _ hmem => absurd hmem List.not_mem_nil

/-- A change that makes nothing affords what it writes. -/
theorem Affords.of_writes {writes : List (Address × Nat × Nat)} {kind : Option (Address × Tag)}
    (node : ∀ a i w, (a, i, w) ∈ writes → h.Live roots a ∧ 1 ≤ i ∧ i < nodeSize)
    (child : ∀ a i w, (a, i, w) ∈ writes → (h.header a).childRange.1 ≤ i →
      i < (h.header a).childRange.2 → w = vacant ∨ h.Live roots w) :
    h.Affords roots { writes, kind } where
  range := fun _ _ hmem => absurd hmem List.not_mem_nil
  made := fun _ _ hmem => absurd hmem List.not_mem_nil
  node := node
  child := child

end Affords

/-- A heap before and after a change, where the new nodes are at these addresses. -/
structure Undergoes (h k : Heap) (roots : List Address) (c : Change) (f : Nat → Address) : Prop where
  /-- What was live is in use. -/
  inUse : ∀ a, h.Live roots a → k.InUse a
  /-- The headers. -/
  header : ∀ a, h.Live roots a → (∀ t, c.kind ≠ some (a, t)) → k.header a = h.header a
  /-- The header of a channel whose kind of elements is recorded. -/
  kind : ∀ a t, h.Live roots a → c.kind = some (a, t) → k.header a =
    { h.header a with payload := channelPayload (h.isUnbuffered a) t.code }
  /-- The words. -/
  word : ∀ a i, h.Live roots a → 1 ≤ i → i < nodeSize → k.word a i = c.wordAt h a i
  /-- The texts. -/
  text : ∀ a, h.Live roots a → k.text? a = h.text? a
  /-- The new nodes. -/
  node : ∀ i header words, c.made[i]? = some (.node header words) →
    New h k roots (f i) header (words.map (Ref.placed f))
  /-- They are different. -/
  distinct : ∀ i j header words header' words', c.made[i]? = some (.node header words) →
    c.made[j]? = some (.node header' words') → f i = f j → i = j
  /-- The nodes of texts. -/
  string : ∀ i s, c.made[i]? = some (.text s) →
    k.InUse (f i) ∧ k.tag (f i) = .string ∧ k.text? (f i) = some s
  /-- The permanent nodes. -/
  bottom : k.bottom = h.bottom
  /-- The nodes being built. -/
  building : k.building = h.building
  /-- The heap is sound. -/
  sound : k.Sound

namespace Undergoes

variable {h k l : Heap} {roots : List Address} {c : Change} {f : Nat → Address} {a : Address}

theorem tag (u : Undergoes h k roots c f) (ha : h.Live roots a) : k.tag a = h.tag a := by
  by_cases hkind : ∃ t, c.kind = some (a, t)
  · obtain ⟨t, ht⟩ := hkind
    rw [Heap.tag, u.kind a t ha ht]
    rfl
  · exact congrArg Header.tag (u.header a ha fun t ht => hkind ⟨t, ht⟩)

theorem size (u : Undergoes h k roots c f) (ha : h.Live roots a) : k.size a = h.size a := by
  by_cases hkind : ∃ t, c.kind = some (a, t)
  · obtain ⟨t, ht⟩ := hkind
    rw [Heap.size, u.kind a t ha ht]
    rfl
  · exact congrArg (fun x : Header => x.size.toNat) (u.header a ha fun t ht => hkind ⟨t, ht⟩)

theorem childRange (u : Undergoes h k roots c f) (ha : h.Live roots a) :
    (k.header a).childRange = (h.header a).childRange := by
  by_cases hkind : ∃ t, c.kind = some (a, t)
  · obtain ⟨t, ht⟩ := hkind
    rw [u.kind a t ha ht]
    rfl
  · rw [u.header a ha fun t ht => hkind ⟨t, ht⟩]

/-- A word that is not written. -/
theorem word_of_not (u : Undergoes h k roots c f) (ha : h.Live roots a) {i : Nat} (hpos : 1 ≤ i)
    (hlt : i < nodeSize) (hnot : ¬ c.Writes a i) : k.word a i = h.word a i :=
  (u.word a i ha hpos hlt).trans (c.wordAt_of_not hnot h)

/-- A node that is not written. -/
theorem same (u : Undergoes h k roots c f) (ha : h.Live roots a) (hkind : ∀ t, c.kind ≠ some (a, t))
    (hnot : ∀ i, ¬ c.Writes a i) : SameNode h k a :=
  ⟨u.header a ha hkind, fun _ hpos hlt => u.word_of_not ha hpos hlt (hnot _)⟩

/-- Only the arena, the texts and the nodes being built count. -/
theorem alike (u : Undergoes h k roots c f) (alike : Alike k l)
    (hbuilding : l.building = k.building) : Undergoes h l roots c f where
  inUse := fun a ha => alike.inUse.2 (u.inUse a ha)
  header := fun a ha hkind => (alike.toSameArena.same a).header.trans (u.header a ha hkind)
  kind := fun a t ha ht => (alike.toSameArena.same a).header.trans (u.kind a t ha ht)
  word := fun a i ha hpos hlt => (alike.word a i).trans (u.word a i ha hpos hlt)
  text := fun a ha => (alike.text? a).trans (u.text a ha)
  node := by
    intro i header words hi
    have new := u.node i header words hi
    exact ⟨alike.inUse.2 new.toInUse, new.toHolds.of_same new.fits (alike.toSameArena.same _),
      new.not_live, new.isBlock, new.fits⟩
  distinct := u.distinct
  string := by
    intro i s hi
    obtain ⟨hin, htag, htext⟩ := u.string i s hi
    exact ⟨alike.inUse.2 hin, (alike.tag _).trans htag, (alike.text? _).trans htext⟩
  bottom := alike.bottom.trans u.bottom
  building := hbuilding.trans u.building
  sound := u.sound.alike alike fun a ha => u.sound.building a (hbuilding ▸ ha)

/-- A change of which nothing is written. -/
theorem of_grows (g : Grows h k roots) (hs : h.Sound) (hroots : ∀ a ∈ roots, h.InUse a)
    {made : List Blueprint}
    (node : ∀ i header words, made[i]? = some (.node header words) →
      New h k roots (f i) header (words.map (Ref.placed f)))
    (distinct : ∀ i j header words header' words', made[i]? = some (.node header words) →
      made[j]? = some (.node header' words') → f i = f j → i = j)
    (string : ∀ i s, made[i]? = some (.text s) →
      k.InUse (f i) ∧ k.tag (f i) = .string ∧ k.text? (f i) = some s) :
    Undergoes h k roots { made } f where
  inUse := fun _ ha => g.inUse hs hroots ha
  header := fun a ha _ => (g.toKeeps.node a ha).header
  kind := by
    intro a t _ ht
    cases ht
  word := fun a i ha hpos hlt => (g.toKeeps.node a ha).word i hpos hlt
  text := g.toKeeps.text
  node := node
  distinct := distinct
  string := string
  bottom := g.toKeeps.bottom
  building := g.building
  sound := g.sound

/-- Nothing changes. -/
theorem nothing (g : Grows h k roots) (hs : h.Sound) (hroots : ∀ a ∈ roots, h.InUse a)
    (f : Nat → Address) : Undergoes h k roots {} f := by
  refine of_grows g hs hroots ?_ ?_ ?_
  all_goals
    intro _ _
    simp

/-- One node is made. -/
theorem of_made {header : Header} {ws : List Nat} {x : Address} (made : Made h k roots x header ws)
    (hs : h.Sound) (hroots : ∀ a ∈ roots, h.InUse a) :
    Undergoes h k roots { made := [.node header (ws.map .known)] } fun _ => x := by
  refine of_grows made.toGrows hs hroots ?_ ?_ ?_
  · rintro i header' words hi
    obtain rfl : i = 0 := by
      have hlt := (List.getElem?_eq_some_iff.1 hi).1
      simpa using hlt
    obtain ⟨rfl, rfl⟩ := Blueprint.node.inj (Option.some.inj hi)
    rw [map_placed_known]
    exact made.toNew
  · intro i j _ _ _ _ hi hj _
    have hi := (List.getElem?_eq_some_iff.1 hi).1
    have hj := (List.getElem?_eq_some_iff.1 hj).1
    simp only [List.length_singleton] at hi hj
    omega
  · intro i s hi
    obtain rfl : i = 0 := by
      have hlt := (List.getElem?_eq_some_iff.1 hi).1
      simpa using hlt
    cases hi

/-- The node of a text is found or made. -/
theorem of_hasText {s : String} {x : Address} (has : HasText h k roots x s) (hs : h.Sound)
    (hroots : ∀ a ∈ roots, h.InUse a) : Undergoes h k roots { made := [.text s] } fun _ => x := by
  have hzero : ∀ {i : Nat} {b : Blueprint}, [Blueprint.text s][i]? = some b → b = .text s := by
    intro i b hi
    exact List.mem_singleton.1 (List.mem_of_getElem? hi)
  refine of_grows has.toGrows hs hroots ?_ ?_ ?_
  · intro i header words hi
    cases hzero hi
  · intro i _ _ _ _ _ hi
    cases hzero hi
  · intro i t hi
    obtain rfl := Blueprint.text.inj (hzero hi)
    exact ⟨has.toInUse, has.is_string, has.has⟩

/-- One node is written. -/
theorem of_updated {x : Address} (u : Updated h k x) (hs : h.Sound)
    (hroots : ∀ a ∈ roots, h.InUse a) {writes : List (Address × Nat × Nat)}
    {kind : Option (Address × Tag)} (hstring : h.tag x ≠ .string)
    (hwrites : ∀ a i w, (a, i, w) ∈ writes → a = x)
    (hkind : kind = none ∧ k.header x = h.header x ∨ ∃ t, kind = some (x, t) ∧
      k.header x = { h.header x with payload := channelPayload (h.isUnbuffered x) t.code })
    (hword : ∀ i, 1 ≤ i → i < nodeSize → k.word x i = Change.wordAt { writes, kind } h x i)
    (hbuilding : k.building = h.building) :
    Undergoes h k roots { writes, kind } f where
  inUse := fun _ ha => u.inUse (hs.inUse_of_live hroots ha)
  header := by
    intro a ha hnot
    by_cases hax : a = x
    · subst hax
      rcases hkind with ⟨-, hsame⟩ | ⟨t, ht, -⟩
      · exact hsame
      · exact absurd ht (hnot t)
    · exact (u.toWrites.same (hs.inUse_of_live hroots ha).toIsBlock hax).header
  kind := by
    intro a t _ ht
    rcases hkind with ⟨rfl, -⟩ | ⟨_, rfl, hrecorded⟩
    · cases ht
    · obtain ⟨rfl, rfl⟩ := Prod.mk.inj (Option.some.inj ht)
      exact hrecorded
  word := by
    intro a i ha hpos hlt
    by_cases hax : a = x
    · subst hax
      exact hword i hpos hlt
    · rw [Change.wordAt_of_not fun ⟨w, hw⟩ => hax (hwrites _ _ _ hw)]
      exact (u.toWrites.same (hs.inUse_of_live hroots ha).toIsBlock hax).word i hpos hlt
  text := by
    intro a ha
    have hblock := (hs.inUse_of_live hroots ha).toIsBlock
    by_cases hax : a = x
    · subst hax
      rw [Heap.text?, Heap.text?, if_neg hstring, u.kind, if_neg hstring]
    · have same := u.toWrites.same hblock hax
      rw [Heap.text?, Heap.text?, same.tag, same.word 1 (by decide) (by decide), u.toWrites.texts]
  node := by
    intro i _ _ hi
    cases hi
  distinct := by
    intro i _ _ _ _ _ hi
    cases hi
  string := by
    intro i _ hi
    cases hi
  bottom := u.toWrites.bottom
  building := hbuilding
  sound := u.sound

/-! ## What is live afterwards -/

/-- What is live after a change was live before, or it is new. -/
theorem live_or_made (u : Undergoes h k roots c f) (hs : h.Sound) (hroots : ∀ a ∈ roots, h.InUse a)
    (affords : h.Affords roots c) {roots' : List Address}
    (hroots' : ∀ a ∈ roots', h.Live roots a ∨ ∃ i < c.made.length, a = f i) (ha : k.Live roots' a) :
    h.Live roots a ∨ ∃ i < c.made.length, a = f i := by
  induction ha with
  | @pending a hmem =>
    rw [List.mem_append, List.mem_append, List.mem_reverse, List.mem_reverse] at hmem
    rcases hmem with (hperm | hbuilding) | hroot
    · obtain ⟨hmod, hlt⟩ := (mem_permanentRoots u.sound.toIntact).1 hperm
      exact .inl (.permanent hs.toIntact hmod (u.bottom ▸ hlt))
    · exact .inl (.building (u.building ▸ hbuilding))
    · exact hroots' a hroot
  | @child a d hreach hd ih =>
    obtain ⟨hvacant, i, hle, hlt, hin, hword⟩ := mem_children.1 hd
    change (k.header a).childRange.1 ≤ i at hle
    change i < (k.header a).childRange.2 at hlt
    change k.word a i = d at hword
    rcases ih with hlive | ⟨n, hn, rfl⟩
    · -- A node that was there has its children, and those that are written.
      have ha := hs.inUse_of_live hroots hlive
      have hpos := Header.one_le_childRange_fst (Nat.lt_of_le_of_lt hle hlt)
      have hsize := Nat.lt_of_lt_of_le (u.childRange hlive ▸ hlt) (hs.typed a ha).range
      rw [u.childRange hlive] at hle hlt hpos
      rw [u.word a i hlive (Nat.le_trans hpos hle) hsize] at hword
      rcases c.wordAt_cases h a i with hw | hw
      · rw [hword] at hw
        rcases affords.child a i d hw hle hlt with rfl | hd
        · exact absurd rfl hvacant
        · exact .inl hd
      · refine .inl (.child hlive (mem_children.2 ⟨hvacant, i, hle, hlt, ?_, hw.symm.trans hword⟩))
        have hinside := ha.toIsBlock.inside
        omega
    · have hb := List.getElem?_eq_getElem hn
      cases hmade : c.made[n] with
      | text s =>
        rw [hmade] at hb
        have htag := (u.string n s hb).2.1
        rw [childRange_of_tag htag] at hlt
        exact absurd hlt (Nat.not_lt_zero i)
      | node header words =>
        rw [hmade] at hb
        have new := u.node n header words hb
        have hmem := List.mem_of_getElem? hb
        rw [new.toHolds.header] at hle hlt
        have hpos := Header.one_le_childRange_fst (Nat.lt_of_le_of_lt hle hlt)
        obtain ⟨j, rfl⟩ : ∃ j, i = j + 1 := ⟨i - 1, by omega⟩
        have hj : j < words.length := by
          have hrange := affords.range header words hmem
          omega
        have hr := List.getElem?_eq_getElem hj
        have hw := new.toHolds.word j (words[j].placed f) (by rw [List.getElem?_map, hr]; rfl)
        rw [hword] at hw
        rcases affords.made header words hmem j _ hr hle hlt with hv | hstands
        · rw [hv] at hw
          exact absurd hw hvacant
        · generalize words[j] = r at hw hstands
          cases r with
          | known w => exact .inl (hw ▸ hstands)
          | made m => exact .inr ⟨m, hstands, hw⟩

end Undergoes

end Heap

end ChannelMachine
