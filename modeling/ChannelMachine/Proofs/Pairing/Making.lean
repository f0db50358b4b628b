import ChannelMachine.Proofs.Heap.Building
import ChannelMachine.Proofs.Pairing.Reading
import ChannelMachine.Proofs.Relates

/-!
# Making partners

If both heaps make a node with the same header, and with words that stand for one another, the new
nodes are partners, whatever was collected meanwhile.  The smaller heap is the first one to run out
of nodes.

`Evolves` sums up what happened to two paired heaps: both have grown, live partners have stayed
partners, and no pair is new among the nodes that threads wait for, but for one that is named.
-/

namespace ChannelMachine

/-- Whether threads wait for nodes of this kind. -/
def Tag.waits : Tag → Bool
  | .channel | .waitGroup => Bool.true
  | _ => Bool.false

namespace Heap

/-! ## Words that stand for one another -/

/-- The words behind a header that two heaps write stand for one another. -/
structure SimilarWords (ρ : Pairing) (header : Header) (ws ws' : List Nat) : Prop where
  length : ws'.length = ws.length
  range : header.childRange.2 ≤ ws.length + 1
  dataEnd : header.dataEnd ≤ ws.length + 1
  data : ∀ i, i + 1 < header.dataEnd → ws'[i]? = ws[i]?
  child : ∀ i v w, header.childRange.1 ≤ i + 1 → i + 1 < header.childRange.2 → ws[i]? = some v →
    ws'[i]? = some w → ρ.Child v w

namespace SimilarWords

variable {ρ σ : Pairing} {header : Header} {ws ws' : List Nat}

theorem plain (hrange : header.childRange = (0, 0)) (hend : header.dataEnd ≤ ws.length + 1) :
    SimilarWords ρ header ws ws where
  length := rfl
  range := by
    rw [hrange]
    exact Nat.zero_le _
  dataEnd := hend
  data := fun _ _ => rfl
  child := by
    rw [hrange]
    exact fun _ _ _ _ hlt => absurd hlt (Nat.not_lt_zero _)

theorem children (hrange : header.childRange = (1, ws.length + 1)) (hend : header.dataEnd = 0)
    (hws : Partners ρ ws ws') : SimilarWords ρ header ws ws' where
  length := hws.length_eq.symm
  range := Nat.le_of_eq (congrArg Prod.snd hrange)
  dataEnd := by
    rw [hend]
    exact Nat.zero_le _
  data := by
    rw [hend]
    exact fun _ hlt => absurd hlt (Nat.not_lt_zero _)
  child := by
    intro i v w _ _ hv hw
    exact .inl (hws.of_getElem? hv hw)

end SimilarWords

/-- Nodes with the same header whose words stand for one another look the same. -/
theorem Holds.similar {ρ : Pairing} {h k : Heap} {a b : Nat} {header : Header} {ws ws' : List Nat}
    (left : Holds h a header ws) (right : Holds k b header ws') (ht : header.tag ≠ .string)
    (hw : SimilarWords ρ header ws ws') : Similar ρ h k a b where
  tag := right.tag.trans left.tag.symm
  text := by
    rw [text?, text?, left.tag, right.tag, if_neg ht, if_neg ht]
  header := fun _ => right.header.trans left.header.symm
  data := by
    rw [left.header]
    intro i hpos hlt
    obtain ⟨j, rfl⟩ : ∃ j, i = j + 1 := ⟨i - 1, by omega⟩
    have hj : j < ws.length := by
      have := hw.dataEnd
      omega
    have hword := List.getElem?_eq_getElem hj
    rw [left.word j _ hword, right.word j _ ((hw.data j hlt).trans hword)]
  child := by
    rw [left.header]
    intro i hle hlt
    have hpos := Header.one_le_childRange_fst (Nat.lt_of_le_of_lt hle hlt)
    obtain ⟨j, rfl⟩ : ∃ j, i = j + 1 := ⟨i - 1, by omega⟩
    have hj : j < ws.length := by
      have := hw.range
      omega
    have hj' : j < ws'.length := hw.length ▸ hj
    have hv := List.getElem?_eq_getElem hj
    have hw' := List.getElem?_eq_getElem hj'
    rw [left.word j _ hv, right.word j _ hw']
    exact hw.child j _ _ hle hlt hv hw'

/-! ## New partners -/

/-- The live pairs, and the pair of two new nodes. -/
def Pairing.grown (ρ : Pairing) (k : Heap) (roots' : List Address) (x y : Address) : Pairing :=
  (ρ.within (k.Live roots')).add x y

section

variable {ρ : Pairing} {h h' k k' : Heap} {roots roots' : List Address}

theorem Paired.made (p : Paired ρ h k roots roots') {x y : Nat} {header : Header}
    {ws ws' : List Nat} (left : Made h h' roots x header ws) (right : Made k k' roots' y header ws')
    (ht : header.tag ≠ .string) (hw : SimilarWords (ρ.within (k.Live roots')) header ws ws') :
    Paired (ρ.grown k roots' x y) h' k' roots roots' := by
  refine (p.grow left.toGrows right.toGrows).add left.toInUse right.toInUse
    (left.toHolds.similar right.toHolds ht hw) ?_ ?_
  · rintro b ⟨hxb, hb⟩
    exact absurd (p.live_left hxb hb) left.not_live
  · rintro a ⟨-, hy⟩
    exact absurd hy right.not_live

/-- The rule for making a node in both heaps.  If the second one has no room, all its nodes are
live, and then the first one has no room either. -/
theorem Paired.relates_made (p : Paired ρ h k roots roots') (hcount : h.nodeCount ≤ k.nodeCount)
    {action action' : Action Address} {header : Header} {ws ws' : List Nat} {n : Nat}
    (left : Ensures action h (fun a h' => Made h h' roots a header ws)
      (fun e h' => Refused h h' roots n e))
    (right : Ensures action' k (fun b k' => Made k k' roots' b header ws')
      (fun e k' => Refused k k' roots' n e))
    (ht : header.tag ≠ .string) (hn : n = ws.length + 1) (hlen : ws'.length = ws.length)
    (hw : n ≤ nodeSize → SimilarWords (ρ.within (k.Live roots')) header ws ws') :
    Relates action action' h k
      (fun a h' b k' => Made h h' roots a header ws ∧ Made k k' roots' b header ws' ∧
        Paired (ρ.grown k roots' a b) h' k' roots roots')
      (fun _ _ => True) := by
  refine .of_ensures left right ?_ ?_ ?_ ?_
  · exact fun a h' b k' mh mk => ⟨mh, mk, p.made mh mk ht (hw (hn ▸ mh.fits))⟩
  · intro a h' e k' mh refused
    have hfits := mh.fits
    rcases refused.cause with ⟨-, hn'⟩ | ⟨-, -, -, hfull⟩
    · omega
    · obtain ⟨b, hab, hb⟩ := p.full hcount hfull mh.isBlock
      exact mh.not_live (p.live_left hab hb)
  · intro e h' b k' refused mk
    have hfits := mk.fits
    rcases refused.cause with ⟨-, hn'⟩ | ⟨he, -⟩
    · omega
    · exact he
  · intro e h' e' k' refused refused'
    rcases refused.cause with ⟨he, hn'⟩ | ⟨he, -⟩
    · rcases refused'.cause with ⟨he', -⟩ | ⟨-, hpos, hle, -⟩
      · exact .inr ⟨he'.trans he.symm, trivial⟩
      · exact absurd ⟨hpos, hle⟩ hn'
    · exact .inl he

end

/-! ## Steps of paired heaps -/

/-- What happens to two paired heaps while both make nodes.  The pairs in `new` are the only new
ones among the nodes that threads wait for, and their nodes were not live. -/
structure Evolves (ρ σ : Pairing) (h h' k k' : Heap) (roots roots' : List Address)
    (new : Pairing) : Prop where
  paired : Paired σ h' k' roots roots'
  left : Grows h h' roots
  right : Grows k k' roots'
  keep : ∀ a b, ρ a b → k.Live roots' b → σ a b
  old : ∀ a b, σ a b → (ρ a b ∧ h'.tag a = h.tag a ∧ ∀ x y, new x y → a ≠ x ∧ b ≠ y) ∨
    (h'.tag a).waits = false ∨ new a b

/-- No pair. -/
def Pairing.none : Pairing := fun _ _ => False

/-- One pair. -/
def Pairing.only (x y : Address) : Pairing := fun a b => a = x ∧ b = y

namespace Evolves

variable {ρ σ τ new : Pairing} {h h' h'' k k' k'' : Heap} {roots roots' : List Address}

theorem refl (p : Paired ρ h k roots roots') : Evolves ρ ρ h h k k roots roots' .none :=
  ⟨p, .refl p.left _, .refl p.right _, fun _ _ hab _ => hab,
    fun _ _ hab => .inl ⟨hab, rfl, fun _ _ h => h.elim⟩⟩

theorem trans (first : Evolves ρ σ h h' k k' roots roots' .none) (p : Paired ρ h k roots roots')
    (second : Evolves σ τ h' h'' k' k'' roots roots' new) :
    Evolves ρ τ h h'' k k'' roots roots' new where
  paired := second.paired
  left := first.left.trans p.left p.left_roots second.left
  right := first.right.trans p.right p.right_roots second.right
  keep := fun a b hab hb =>
    second.keep a b (first.keep a b hab hb) (first.right.live p.right p.right_roots hb)
  old := by
    intro a b hab
    rcases second.old a b hab with ⟨hab, htag, hne⟩ | hab
    · rw [htag]
      rcases first.old a b hab with ⟨hab, htag, -⟩ | hwaits | hnone
      · exact .inl ⟨hab, htag, hne⟩
      · exact .inr (.inl hwaits)
      · exact hnone.elim
    · exact .inr hab

/-- Two heaps that both made a node that no thread waits for. -/
theorem made (p : Paired ρ h k roots roots') {x y : Nat} {header : Header} {ws ws' : List Nat}
    (left : Made h h' roots x header ws) (right : Made k k' roots' y header ws')
    (hwaits : header.tag.waits = false) (q : Paired (ρ.grown k roots' x y) h' k' roots roots') :
    Evolves ρ (ρ.grown k roots' x y) h h' k k' roots roots' .none where
  paired := q
  left := left.toGrows
  right := right.toGrows
  keep := fun a b hab hb => .inl ⟨hab, hb⟩
  old := by
    rintro a b (⟨hab, hb⟩ | ⟨rfl, rfl⟩)
    · exact .inl ⟨hab, left.toKeeps.tag (p.live_left hab hb), fun _ _ h => h.elim⟩
    · rw [left.toHolds.tag]
      exact .inr (.inl hwaits)

/-- Two heaps that both made a node that threads may wait for. -/
theorem made_waiter (p : Paired ρ h k roots roots') {x y : Nat} {header : Header}
    {ws ws' : List Nat} (left : Made h h' roots x header ws) (right : Made k k' roots' y header ws')
    (q : Paired (ρ.grown k roots' x y) h' k' roots roots') :
    Evolves ρ (ρ.grown k roots' x y) h h' k k' roots roots' (.only x y) where
  paired := q
  left := left.toGrows
  right := right.toGrows
  keep := fun a b hab hb => .inl ⟨hab, hb⟩
  old := by
    rintro a b (⟨hab, hb⟩ | hxy)
    · have ha := p.live_left hab hb
      refine .inl ⟨hab, left.toKeeps.tag ha, ?_⟩
      rintro _ _ ⟨rfl, rfl⟩
      constructor
      · rintro rfl
        exact left.not_live ha
      · rintro rfl
        exact right.not_live hb
    · exact .inr (.inr hxy)

end Evolves

/-! ## Nodes that are held -/

section

variable {ρ σ new : Pairing} {h h' k k' : Heap} {roots roots' : List Address} {x y : Nat}

theorem relates_holding {α β : Type} {action : Action α} {action' : Action β}
    {good : α → Heap → β → Heap → Prop}
    (hx : Relates action action' (h.held x) (k.held y)
      (fun a h' b k' => good a (h'.withBuilding h.building) b (k'.withBuilding k.building))
      (fun _ _ => True)) :
    Relates (holding x action) (holding y action') h k good (fun _ _ => True) := by
  unfold Relates holding at *
  simp only
  rw [held, held, withBuilding, withBuilding] at hx
  cases heq : action { h with building := x :: h.building } with
  | ok a h' =>
    cases heq' : action' { k with building := y :: k.building } with
    | ok b k' =>
      rw [heq, heq'] at hx
      exact hx
    | error e k' =>
      rw [heq, heq'] at hx
      exact hx
  | error e h' =>
    cases heq' : action' { k with building := y :: k.building } with
    | ok b k' =>
      rw [heq, heq'] at hx
      exact hx
    | error e' k' =>
      rw [heq, heq'] at hx
      exact hx

theorem Paired.held (p : Paired ρ h k roots roots') (hxy : ρ x y) :
    Paired ρ (h.held x) (k.held y) roots roots' where
  toMatched := p.toMatched.alike (alike_withBuilding h _) (alike_withBuilding k _)
  left := p.left.held (p.left_inUse x y hxy)
  right := p.right.held (p.right_inUse x y hxy)
  left_roots := fun a ha => (p.left_roots a ha).held
  roots := p.roots
  building := p.building.cons hxy

theorem Evolves.unhold (p : Paired ρ h k roots roots')
    (e : Evolves ρ σ (h.held x) h' (k.held y) k' roots roots' new) :
    Evolves ρ σ h (h'.withBuilding h.building) k (k'.withBuilding k.building) roots roots'
      new where
  paired := {
    toMatched := e.paired.toMatched.alike (alike_withBuilding h' _) (alike_withBuilding k' _)
    left := e.left.unhold.sound
    right := e.right.unhold.sound
    left_roots := fun a ha => (alike_withBuilding h' _).inUse.2 (e.paired.left_roots a ha)
    roots := e.paired.roots
    building := p.building.imp fun a b hab hb => e.keep a b hab (Live.building hb).held }
  left := e.left.unhold
  right := e.right.unhold
  keep := fun a b hab hb => e.keep a b hab hb.held
  old := e.old

theorem relates_holding_left {α β : Type} {action : Action α} {action' : Action β}
    {good : α → Heap → β → Heap → Prop}
    (hx : Relates action action' (h.held x) k
      (fun a h' b k' => good a (h'.withBuilding h.building) b k') (fun _ _ => True)) :
    Relates (holding x action) action' h k good (fun _ _ => True) := by
  unfold Relates holding at *
  simp only
  rw [held, withBuilding] at hx
  cases heq : action { h with building := x :: h.building } with
  | ok a h' =>
    cases heq' : action' k with
    | ok b k' =>
      rw [heq, heq'] at hx
      exact hx
    | error e k' =>
      rw [heq, heq'] at hx
      exact hx
  | error e h' =>
    cases heq' : action' k with
    | ok b k' =>
      rw [heq, heq'] at hx
      exact hx
    | error e' k' =>
      rw [heq, heq'] at hx
      exact hx

theorem Paired.held_left (p : Paired ρ h k roots roots') (hx : h.InUse x) :
    Paired ρ (h.held x) k roots roots' where
  toMatched := p.toMatched.alike (alike_withBuilding h _) (.refl k)
  left := p.left.held hx
  right := p.right
  left_roots := fun a ha => (p.left_roots a ha).held
  roots := p.roots
  building := fun b hb => by
    obtain ⟨a, ha, hab⟩ := p.building b hb
    exact ⟨a, List.mem_cons_of_mem _ ha, hab⟩

theorem Evolves.unhold_left (p : Paired ρ h k roots roots')
    (e : Evolves ρ σ (h.held x) h' k k' roots roots' new) :
    Evolves ρ σ h (h'.withBuilding h.building) k k' roots roots' new where
  paired := {
    toMatched := e.paired.toMatched.alike (alike_withBuilding h' _) (.refl k')
    left := e.left.unhold.sound
    right := e.paired.right
    left_roots := fun a ha => (alike_withBuilding h' _).inUse.2 (e.paired.left_roots a ha)
    roots := e.paired.roots
    building := by
      rw [e.right.building]
      exact p.building.imp fun a b hab hb => e.keep a b hab (Live.building hb) }
  left := e.left.unhold
  right := e.right
  keep := e.keep
  old := e.old

/-- The first heap grows on its own. -/
theorem Evolves.grown_left (p : Paired ρ h k roots roots') (left : Grows h h' roots) :
    Evolves ρ (ρ.within (k.Live roots')) h h' k k roots roots' .none where
  paired := p.grow left (.refl p.right _)
  left := left
  right := .refl p.right _
  keep := fun _ _ hab hb => ⟨hab, hb⟩
  old := fun _ _ ⟨hab, hb⟩ =>
    .inl ⟨hab, left.toKeeps.tag (p.live_left hab hb), fun _ _ hnone => hnone.elim⟩

end

/-! ## Numbers and texts -/

namespace Paired

variable {ρ : Pairing} {h k : Heap} {roots roots' : Roots}

/-- The condition on two results: they are partners after a step. -/
def Gives (ρ : Pairing) (h k : Heap) (roots roots' : List Address) (a : Address) (h' : Heap)
    (b : Address) (k' : Heap) : Prop :=
  ∃ σ, Evolves ρ σ h h' k k' roots roots' .none ∧ σ a b

/-- The condition on two new nodes that threads may wait for. -/
def GivesWaiter (ρ : Pairing) (h k : Heap) (roots roots' : List Address) (a : Address) (h' : Heap)
    (b : Address) (k' : Heap) : Prop :=
  ∃ σ, Evolves ρ σ h h' k k' roots roots' (.only a b) ∧ σ a b

/-- The rule for making a node that no thread waits for. -/
theorem relates_new (p : Paired ρ h k roots.get roots'.get) (hcount : h.nodeCount ≤ k.nodeCount)
    {action action' : Action Address} {header : Header} {ws ws' : List Nat} {n : Nat}
    (left : Ensures action h (fun a h' => Made h h' roots.get a header ws)
      (fun e h' => Refused h h' roots.get n e))
    (right : Ensures action' k (fun b k' => Made k k' roots'.get b header ws')
      (fun e k' => Refused k k' roots'.get n e))
    (ht : header.tag ≠ .string) (hwaits : header.tag.waits = false) (hn : n = ws.length + 1)
    (hlen : ws'.length = ws.length)
    (hw : n ≤ nodeSize → SimilarWords (ρ.within (k.Live roots'.get)) header ws ws') :
    Relates action action' h k (Gives ρ h k roots.get roots'.get) (fun _ _ => True) := by
  refine (p.relates_made hcount left right ht hn hlen hw).mono ?_
  rintro a h' b k' ⟨mh, mk, q⟩
  exact ⟨_, .made p mh mk hwaits q, .inr ⟨rfl, rfl⟩⟩

theorem relates_newNumber (p : Paired ρ h k roots.get roots'.get)
    (hcount : h.nodeCount ≤ k.nodeCount) (x : Number) :
    Relates (newNumber x roots) (newNumber x roots') h k (Gives ρ h k roots.get roots'.get)
      (fun _ _ => True) :=
  p.relates_new hcount (p.left.newNumber_ensures p.left_roots x)
    (p.right.newNumber_ensures p.right_roots x) (by decide) rfl rfl rfl
    fun _ => .plain rfl (Nat.le_refl 2)

/-- Two nodes that have the same text are partners, or neither of them has one. -/
theorem has_text (p : Paired ρ h k roots.get roots'.get) {h' k' : Heap} {a b : Nat} {s : String}
    (left : HasText h h' roots.get a s) (right : HasText k k' roots'.get b s) :
    Gives ρ h k roots.get roots'.get a h' b k' := by
  have q := p.grow left.toGrows right.toGrows
  have hnode : Similar (ρ.within (k.Live roots'.get)) h' k' a b := by
    have hrange := childRange_string (show (h'.header a).tag = .string from left.is_string)
    refine ⟨right.is_string.trans left.is_string.symm, right.has.trans left.has.symm,
      fun hne => absurd left.is_string hne, ?_, ?_⟩
    · rw [hrange.2]
      exact fun i _ hlt => absurd hlt (Nat.not_lt_zero _)
    · rw [hrange.1]
      exact fun i _ hlt => absurd hlt (Nat.not_lt_zero _)
  -- A text has one node, so a partner with the same text is the node that was found.
  have hstrings := left.sound.toInterned.strings_of_text? left.toInUse.toIsBlock left.has
  have hstrings' := right.sound.toInterned.strings_of_text? right.toInUse.toIsBlock right.has
  refine ⟨ρ.grown k roots'.get a b, ?_, .inr ⟨rfl, rfl⟩⟩
  refine ⟨q.add left.toInUse right.toInUse hnode ?_ ?_, left.toGrows, right.toGrows,
    fun a b hab hb => .inl ⟨hab, hb⟩, ?_⟩
  · intro b' hab'
    have htext : k'.text? b' = some s := ((q.similar a b' hab').text).trans left.has
    have hb' := q.right_inUse a b' hab'
    rw [right.sound.toInterned.strings_of_text? hb'.toIsBlock htext] at hstrings'
    exact Option.some.inj hstrings'
  · intro a' hab'
    have htext : h'.text? a' = some s := ((q.similar a' b hab').text).symm.trans right.has
    have ha' := q.left_inUse a' b hab'
    rw [left.sound.toInterned.strings_of_text? ha'.toIsBlock htext] at hstrings
    exact Option.some.inj hstrings
  · rintro a' b' (⟨hab, hb⟩ | ⟨rfl, rfl⟩)
    · exact .inl ⟨hab, left.toKeeps.tag (p.live_left hab hb), fun _ _ h => h.elim⟩
    · rw [left.is_string]
      exact .inr (.inl rfl)

theorem relates_newString (p : Paired ρ h k roots.get roots'.get)
    (hcount : h.nodeCount ≤ k.nodeCount) (s : String) :
    Relates (newString s roots) (newString s roots') h k (Gives ρ h k roots.get roots'.get)
      (fun _ _ => True) := by
  refine .of_ensures (p.left.newString_ensures p.left_roots s)
    (p.right.newString_ensures p.right_roots s) ?_ ?_ ?_ ?_
  · exact fun a h' b k' left right => p.has_text left right
  · rintro a h' e k' left ⟨refused, hnone⟩
    rcases refused.cause with ⟨-, hfits⟩ | ⟨-, -, -, hfull⟩
    · exact absurd (by decide) hfits
    -- All nodes are live in both heaps, so the node of the text has a partner with the text.
    obtain ⟨b, hab, hb⟩ := p.full hcount hfull left.isBlock
    have ha := p.live_left hab hb
    have htext : k.text? b = some s :=
      ((p.similar a b hab).text.trans (left.text a ha).symm).trans left.has
    rw [p.right.toInterned.strings_of_text? (p.right_inUse a b hab).toIsBlock htext] at hnone
    cases hnone
  · exact fun e h' b k' refused _ => refused.1.exhausted
  · exact fun e h' e' k' refused _ => .inl refused.1.exhausted

/-! ## Frames and environments -/

/-- What a list of partners that are live becomes in a later heap. -/
theorem partners_live {values values' : List Nat} (hvalues : Partners ρ values values')
    (hlive : ∀ w ∈ values', k.Live roots'.get w) :
    Partners (ρ.within (k.Live roots'.get)) values values' :=
  hvalues.imp fun _ b hb hab => ⟨hab, hlive b hb⟩

theorem relates_newFrame (p : Paired ρ h k roots.get roots'.get)
    (hcount : h.nodeCount ≤ k.nodeCount) (slots : Nat) :
    Relates (newFrame slots roots) (newFrame slots roots') h k (Gives ρ h k roots.get roots'.get)
      (fun _ _ => True) := by
  have hlen : (List.replicate slots unassigned).length = slots := List.length_replicate
  refine p.relates_new hcount (p.left.newFrame_ensures p.left_roots slots)
    (p.right.newFrame_ensures p.right_roots slots) Tag.noConfusion rfl (by rw [hlen]) rfl
    fun hle => ?_
  have hrange : (Header.fresh .frame (slots + 1)).childRange = (1, slots + 1) :=
    congrArg (Prod.mk 1) (toNat_size hle .frame)
  refine .children (hlen.symm ▸ hrange) rfl (.self fun w hw => ?_)
  rw [List.eq_of_mem_replicate hw]
  exact ⟨p.toMatched.constant p.left.toIntact (by decide), p.right.toIntact.live_unassigned.1⟩

/-- Partners that are environments list partners. -/
theorem framesOf (p : Paired ρ h k roots.get roots'.get) {a b : Nat} (hab : ρ a b)
    (ht : h.tag a = .environment) : Partners ρ (h.framesOf a) (k.framesOf b) := by
  have s := p.similar a b hab
  have ha := p.left_inUse a b hab
  rw [Heap.framesOf, Heap.framesOf, s.frameCount ht]
  refine .map fun i hi => ?_
  have hlt : i < h.size a - 1 := List.mem_range.1 hi
  have hrange := childRange_environment ht
  refine p.toMatched.child hab (p.left.typed a ha) (by rw [ht]; decide) ?_ ?_ p.left.toIntact
  · rw [hrange]
    exact Nat.le_add_left ..
  · rw [hrange]
    exact Nat.add_lt_of_lt_sub hlt

theorem relates_extend (p : Paired ρ h k roots.get roots'.get) (hcount : h.nodeCount ≤ k.nodeCount)
    {a b frame frame' : Nat} (hab : ρ a b) (hb : k.Live roots'.get b) (ht : h.tag a = .environment)
    (hframe : ρ frame frame') (hlive : k.Live roots'.get frame') (hftag : h.tag frame = .frame) :
    Relates (extend a frame roots) (extend b frame' roots') h k (Gives ρ h k roots.get roots'.get)
      (fun _ _ => True) := by
  have s := p.similar a b hab
  have ht' := s.tag.trans ht
  have left := p.left.extend_ensures p.left_roots (p.live_left hab hb) ht (p.live_left hframe hlive)
    hftag
  have right := p.right.extend_ensures p.right_roots hb ht' hlive
    ((p.similar _ _ hframe).tag.trans hftag)
  have hframes := p.framesOf hab ht
  have hlen : ∀ (h : Heap) (a f : Address), (h.framesOf a ++ [f]).length = h.frameCount a + 1 := by
    intro h a f
    rw [List.length_append, length_framesOf]
    rfl
  have hfc := s.frameCount ht
  rw [hfc] at right
  refine p.relates_new hcount left right Tag.noConfusion rfl (by rw [hlen]) (by rw [hlen, hlen, hfc])
    fun hle => ?_
  have hsize := toNat_size hle .environment
  refine .children ?_ rfl (partners_live ?_ ?_)
  · rw [hlen]
    exact congrArg (Prod.mk 1) hsize
  · exact hframes.append (.cons hframe .nil)
  · intro w hw
    rcases List.mem_append.1 hw with hw | hw
    · exact (p.right.live_framesOf p.right_roots hb ht' w hw).1
    · rw [List.mem_singleton.1 hw]
      exact hlive

/-- A frame that was just made is held while it is put into an environment. -/
theorem relates_extend_held (p : Paired ρ h k roots.get roots'.get)
    (hcount : h.nodeCount ≤ k.nodeCount) {a b : Nat} (hab : ρ a b) (hb : k.Live roots'.get b)
    (ht : h.tag a = .environment) {h' k' : Heap} {frame frame' n : Nat} {values : List Nat}
    (made : Made h h' roots.get frame (.fresh .frame n) values)
    (hframe : Gives ρ h k roots.get roots'.get frame h' frame' k') :
    Relates (holding frame (extend a frame roots)) (holding frame' (extend b frame' roots')) h' k'
      (Gives ρ h k roots.get roots'.get) (fun _ _ => True) := by
  obtain ⟨σ, e, hσ⟩ := hframe
  have hcount' : h'.nodeCount ≤ k'.nodeCount := by
    rw [e.left.toKeeps.nodeCount, e.right.toKeeps.nodeCount]
    exact hcount
  have hb' := e.right.live p.right p.right_roots hb
  have ht' := (e.left.toKeeps.tag (p.live_left hab hb)).trans ht
  refine relates_holding (((e.paired.held hσ).relates_extend hcount' (e.keep a b hab hb) hb'.held
    ht' hσ .self_held made.toHolds.tag).mono ?_)
  rintro x h'' y k'' ⟨τ, e', hxy⟩
  exact ⟨τ, e.trans p (e'.unhold e.paired), hxy⟩

/-! ## Scopes and calls -/

/-- The condition on two pairs of nodes: they are partners after a step. -/
def GivesBoth (ρ : Pairing) (h k : Heap) (roots roots' : List Address) (r : Address × Address)
    (h' : Heap) (r' : Address × Address) (k' : Heap) : Prop :=
  ∃ σ, Evolves ρ σ h h' k k' roots roots' .none ∧ σ r.1 r'.1 ∧ σ r.2 r'.2

/-- The rule for what follows a node that is held while a second one is made. -/
theorem relates_held (p : Paired ρ h k roots.get roots'.get) {h' k' : Heap} {x y : Nat}
    (hxy : Gives ρ h k roots.get roots'.get x h' y k') (hcount : h.nodeCount ≤ k.nodeCount)
    {action action' : Action Address}
    (hrest : ∀ σ, Evolves ρ σ h h' k k' roots.get roots'.get .none →
      Paired σ (h'.held x) (k'.held y) roots.get roots'.get →
      (h'.held x).nodeCount ≤ (k'.held y).nodeCount →
      Relates action action' (h'.held x) (k'.held y)
        (Gives σ (h'.held x) (k'.held y) roots.get roots'.get) (fun _ _ => True)) :
    Relates (holding x do return (x, ← action)) (holding y do return (y, ← action')) h' k'
      (GivesBoth ρ h k roots.get roots'.get) (fun _ _ => True) := by
  obtain ⟨σ, e, hσ⟩ := hxy
  have hcount' : h'.nodeCount ≤ k'.nodeCount := by
    rw [e.left.toKeeps.nodeCount, e.right.toKeeps.nodeCount]
    exact hcount
  refine relates_holding (.bind ((hrest σ e (e.paired.held hσ) hcount').mono ?_))
  rintro z h'' w k'' ⟨τ, e', hzw⟩
  exact .pure ⟨τ, e.trans p (e'.unhold e.paired), e'.keep x y hσ .self_held, hzw⟩

theorem relates_newInside (p : Paired ρ h k roots.get roots'.get)
    (hcount : h.nodeCount ≤ k.nodeCount) {a b : Nat} (hab : ρ a b) (hb : k.Live roots'.get b)
    (ht : h.tag a = .environment) (slots : Nat) :
    Relates (do let frame ← newFrame slots roots; holding frame (extend a frame roots))
      (do let frame ← newFrame slots roots'; holding frame (extend b frame roots')) h k
      (Gives ρ h k roots.get roots'.get) (fun _ _ => True) := by
  refine .bind (((p.relates_newFrame hcount slots).with_left
    (p.left.newFrame_ensures p.left_roots slots)).mono ?_)
  rintro frame h' frame' k' ⟨made, hframe⟩
  exact p.relates_extend_held hcount hab hb ht made hframe

theorem relates_newScope (p : Paired ρ h k roots.get roots'.get)
    (hcount : h.nodeCount ≤ k.nodeCount) {a b : Nat} (hab : ρ a b) (hb : k.Live roots'.get b)
    (ht : h.tag a = .environment) (slots : Nat) :
    Relates (newScope a slots roots) (newScope b slots roots') h k
      (GivesBoth ρ h k roots.get roots'.get) (fun _ _ => True) := by
  have ha := p.live_left hab hb
  have ht' := (p.similar a b hab).tag.trans ht
  rw [newScope_eq, newScope_eq]
  refine .bind ((p.relates_new hcount (p.left.newBlock_ensures p.left_roots ha ht)
    (p.right.newBlock_ensures p.right_roots hb ht') Tag.noConfusion rfl rfl rfl fun _ =>
      .children rfl rfl (.cons ⟨hab, hb⟩ .nil)).mono ?_)
  intro x h' y k' hxy
  have hrest := p.relates_held hxy hcount fun σ e q hcount' =>
    q.relates_newInside hcount' (e.keep a b hab hb) (e.right.live p.right p.right_roots hb).held
      ((e.left.toKeeps.tag ha).trans ht) slots
  simpa only [bind_assoc] using hrest

theorem relates_newArguments (p : Paired ρ h k roots.get roots'.get)
    (hcount : h.nodeCount ≤ k.nodeCount) {a b : Nat} (hab : ρ a b) (hb : k.Live roots'.get b)
    (ht : h.tag a = .environment) {arguments arguments' : List Nat}
    (hvalues : Partners ρ arguments arguments')
    (hlive' : ∀ w ∈ arguments', k.Live roots'.get w ∧ (k.tag w).isValue = true) :
    Relates (newArguments a arguments roots) (newArguments b arguments' roots') h k
      (Gives ρ h k roots.get roots'.get) (fun _ _ => True) := by
  have hlen := hvalues.length_eq
  have hlive : ∀ v ∈ arguments, h.Live roots.get v ∧ (h.tag v).isValue = true := by
    intro v hv
    obtain ⟨w, hw, hvw⟩ := hvalues.exists_right hv
    obtain ⟨hl, hvalue⟩ := hlive' w hw
    exact ⟨p.live_left hvw hl, (p.similar v w hvw).tag ▸ hvalue⟩
  have left := p.left.newArgumentFrame_ensures p.left_roots hlive
  have right := p.right.newArgumentFrame_ensures p.right_roots hlive'
  rw [← hlen] at right
  rw [newArguments_eq, newArguments_eq]
  refine .bind (((p.relates_new hcount left right Tag.noConfusion rfl rfl hlen.symm
    fun hle => .children (congrArg (Prod.mk 1) (toNat_size hle .frame)) rfl
      (partners_live hvalues fun w hw => (hlive' w hw).1)).with_left left).mono ?_)
  rintro frame h' frame' k' ⟨made, hframe⟩
  exact p.relates_extend_held hcount hab hb ht made hframe

theorem relates_newCall (p : Paired ρ h k roots.get roots'.get)
    (hcount : h.nodeCount ≤ k.nodeCount) (resume : Nat) {a b c d : Nat} (hab : ρ a b)
    (hb : k.Live roots'.get b) (ht : h.tag a = .environment) (hcd : ρ c d)
    (hd : k.Live roots'.get d) (hct : h.tag c = .environment) {arguments arguments' : List Nat}
    (hvalues : Partners ρ arguments arguments')
    (hlive : ∀ w ∈ arguments', k.Live roots'.get w ∧ (k.tag w).isValue = true) :
    Relates (newCall resume a c arguments roots) (newCall resume b d arguments' roots') h k
      (GivesBoth ρ h k roots.get roots'.get) (fun _ _ => True) := by
  have ha := p.live_left hab hb
  have ht' := (p.similar a b hab).tag.trans ht
  rw [newCall_eq, newCall_eq]
  refine .bind ((p.relates_new hcount (p.left.newCallFrame_ensures p.left_roots resume ha ht)
    (p.right.newCallFrame_ensures p.right_roots resume hb ht') Tag.noConfusion rfl rfl rfl fun _ =>
      .children rfl rfl (.cons ⟨hab, hb⟩ .nil)).mono ?_)
  intro x h' y k' hxy
  refine p.relates_held hxy hcount fun σ e q hcount' => ?_
  refine q.relates_newArguments hcount' (e.keep c d hcd hd)
    (e.right.live p.right p.right_roots hd).held
    ((e.left.toKeeps.tag (p.live_left hcd hd)).trans hct) ?_ ?_
  · exact (partners_live hvalues fun w hw => (hlive w hw).1).imp fun v w _ hvw =>
      e.keep v w hvw.1 hvw.2
  · intro w hw
    obtain ⟨hl, hvalue⟩ := hlive w hw
    refine ⟨(e.right.live p.right p.right_roots hl).held, ?_⟩
    rw [show (k'.held y).tag w = k.tag w from e.right.toKeeps.tag hl]
    exact hvalue

/-- A call frame that only the first heap makes. -/
theorem relates_newCall_spent (p : Paired ρ h k roots.get roots'.get)
    (hcount : h.nodeCount ≤ k.nodeCount) (resume : Nat) {environment c d : Address}
    (henv : h.Live roots.get environment) (hetag : h.tag environment = .environment) (hcd : ρ c d)
    (hd : k.Live roots'.get d) (hct : h.tag c = .environment) {arguments arguments' : List Nat}
    (hvalues : Partners ρ arguments arguments')
    (hlive : ∀ w ∈ arguments', k.Live roots'.get w ∧ (k.tag w).isValue = true) :
    Relates (newCall resume environment c arguments roots) (newArguments d arguments' roots') h k
      (fun r => Gives ρ h k roots.get roots'.get r.2) (fun _ _ => True) := by
  rw [newCall_eq]
  have hframe := p.left.newCallFrame_ensures p.left_roots resume henv hetag
  refine .bind_left (hframe.mono (fun _ _ made => made) fun e h' refused => ?_) fun x h' made => ?_
  · rcases refused.cause with ⟨-, hfits⟩ | ⟨he, -⟩
    · exact absurd ⟨by decide, by decide⟩ hfits
    · exact he
  have e := Evolves.grown_left p made.toGrows
  have hcount' : (h'.held x).nodeCount ≤ k.nodeCount :=
    Nat.le_trans (Nat.le_of_eq made.toKeeps.nodeCount) hcount
  have q : Paired (ρ.within (k.Live roots'.get)) (h'.held x) k roots.get roots'.get :=
    e.paired.held_left made.toInUse
  have hmade := q.relates_newArguments hcount' ⟨hcd, hd⟩ hd
    ((made.toKeeps.tag (p.live_left hcd hd)).trans hct)
    (partners_live hvalues fun w hw => (hlive w hw).1) hlive
  refine relates_holding_left ?_
  have hreturned : ∀ y : Action Address, y = y >>= pure := fun y => (bind_pure y).symm
  rw [hreturned (newArguments d arguments' roots')]
  refine .bind (hmade.mono ?_)
  rintro inside h'' inside' k' ⟨τ, e', hinside⟩
  exact .pure ⟨τ, e.trans p (e'.unhold_left e.paired), hinside⟩

/-! ## Functions, channels and wait-groups -/

theorem relates_newClosure (p : Paired ρ h k roots.get roots'.get)
    (hcount : h.nodeCount ≤ k.nodeCount) (arity entry : Nat) {a b : Nat} (hab : ρ a b)
    (hb : k.Live roots'.get b) (ht : h.tag a = .environment) :
    Relates (newClosure arity entry a roots) (newClosure arity entry b roots') h k
      (Gives ρ h k roots.get roots'.get) (fun _ _ => True) := by
  have ha := p.live_left hab hb
  have ht' := (p.similar a b hab).tag.trans ht
  refine p.relates_new hcount (p.left.newClosure_ensures p.left_roots arity entry ha ht)
    (p.right.newClosure_ensures p.right_roots arity entry hb ht') Tag.noConfusion rfl rfl rfl
    fun _ => ⟨rfl, Nat.le_refl 3, Nat.le_succ 2, ?_, ?_⟩
  · intro i hlt
    obtain rfl : i = 0 := by
      change i + 1 < 2 at hlt
      omega
    rfl
  · intro i v w hle hlt hv hw
    obtain rfl : i = 1 := by
      change 2 ≤ i + 1 at hle
      change i + 1 < 3 at hlt
      omega
    obtain rfl : a = v := Option.some.inj hv
    obtain rfl : b = w := Option.some.inj hw
    exact .inl ⟨hab, hb⟩

theorem relates_newChannel (p : Paired ρ h k roots.get roots'.get)
    (hcount : h.nodeCount ≤ k.nodeCount) (capacity : Nat) :
    Relates (newChannel capacity roots) (newChannel capacity roots') h k
      (GivesWaiter ρ h k roots.get roots'.get) (fun _ _ => True) := by
  rw [newChannel_eq, newChannel_eq]
  by_cases hcapacity : maxCapacity < capacity
  · rw [if_pos hcapacity, if_pos hcapacity]
    exact .throw trivial
  rw [if_neg hcapacity, if_neg hcapacity]
  have hlen := length_emptyRing (max capacity 1)
  have hstart : ringStart = 4 := rfl
  refine (p.relates_made hcount (p.left.newRing_ensures p.left_roots capacity)
    (p.right.newRing_ensures p.right_roots capacity) Tag.noConfusion (by omega) rfl
    fun hle => ⟨rfl, ?_, ?_, fun _ _ => rfl, ?_⟩).mono ?_
  · change (channelHeader capacity).size.toNat ≤ _
    rw [show (channelHeader capacity).size.toNat = _ from toNat_size hle .channel]
    omega
  · change ringStart ≤ _
    omega
  · intro i v w hle' _ hv hw
    obtain rfl : v = w := Option.some.inj (hv.symm.trans hw)
    change 4 ≤ i + 1 at hle'
    obtain ⟨j, rfl⟩ : ∃ j, i = j + 3 := ⟨i - 3, by omega⟩
    have hmem : v ∈ List.replicate (max capacity 1) vacant := List.mem_of_getElem? hv
    exact .inr ⟨List.eq_of_mem_replicate hmem, List.eq_of_mem_replicate hmem⟩
  · rintro a h' b k' ⟨mh, mk, q⟩
    exact ⟨_, .made_waiter p mh mk q, .inr ⟨rfl, rfl⟩⟩

theorem relates_newWaitGroup (p : Paired ρ h k roots.get roots'.get)
    (hcount : h.nodeCount ≤ k.nodeCount) :
    Relates (newWaitGroup roots) (newWaitGroup roots') h k (GivesWaiter ρ h k roots.get roots'.get)
      (fun _ _ => True) := by
  rw [newWaitGroup_eq, newWaitGroup_eq]
  refine .bind (((p.relates_newNumber hcount .zero).with_left
    (p.left.newNumber_ensures p.left_roots .zero)).mono ?_)
  rintro x h' y k' ⟨made, σ, e, hσ⟩
  have q := e.paired.held hσ
  have hcount' : h'.nodeCount ≤ k'.nodeCount := by
    rw [e.left.toKeeps.nodeCount, e.right.toKeeps.nodeCount]
    exact hcount
  have htag : (k'.held y).tag y = .number := (q.similar x y hσ).tag.trans made.toHolds.tag
  refine relates_holding ((q.relates_made hcount' (q.left.newGroupNode_ensures q.left_roots
    .self_held made.toHolds.tag) (q.right.newGroupNode_ensures q.right_roots .self_held htag)
    Tag.noConfusion rfl rfl fun _ => .children rfl rfl (.cons ⟨hσ, .self_held⟩ .nil)).mono ?_)
  rintro a h'' b k'' ⟨mh, mk, q'⟩
  exact ⟨_, e.trans p ((Evolves.made_waiter q mh mk q').unhold e.paired), .inr ⟨rfl, rfl⟩⟩

end Paired

end Heap

end ChannelMachine
