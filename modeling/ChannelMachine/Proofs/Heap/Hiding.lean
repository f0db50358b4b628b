import ChannelMachine.Machine.Operator
import ChannelMachine.Proofs.Heap.Meeting

/-!
# Counters are hidden

The counter of a wait-group is a number node that is written in place, although numbers are values and
values never change.  That is safe as long as nobody but the wait-group has the node.  A heap `Hides` its
counters if no variable and no slot of a channel holds one, and if none is permanent; then the only node
with a counter as a child is the wait-group (`Hides.eq_of_mem_children`).

`Conceals h k` says that whatever happened between two heaps kept the counters of the first one hidden
and added none.  Old nodes are inherited with their words, so it is enough to look at the variables and
slots that are new or written.
-/

namespace ChannelMachine.Heap

/-- The counter of a wait-group in use. -/
def Counter (h : Heap) (c : Address) : Prop :=
  ∃ g, h.InUse g ∧ h.tag g = .waitGroup ∧ h.word g 1 = c

/-- A word from which the program takes values: a variable or a slot of a channel. -/
structure Offers (h : Heap) (a i : Nat) : Prop where
  /-- The node is a frame or a channel. -/
  kind : h.tag a = .frame ∨ h.tag a = .channel
  /-- The word is not in front of the first child. -/
  first : (h.header a).childRange.1 ≤ i
  /-- The word is not behind the last child. -/
  last : i < (h.header a).childRange.2

/-- No counter can be taken out of a node, and none is permanent. -/
structure Hides (h : Heap) : Prop where
  /-- Variables and slots hold other nodes. -/
  slot : ∀ a i, h.InUse a → h.Offers a i → ¬ h.Counter (h.word a i)
  /-- Counters are not permanent. -/
  bottom : ∀ c, h.Counter c → h.bottom ≤ c

section Facts

variable {h k : Heap} {a c : Address} {i : Nat}

theorem Offers.congr (header : k.header a = h.header a) : k.Offers a i ↔ h.Offers a i := by
  have htag : k.tag a = h.tag a := congrArg Header.tag header
  constructor
  · rintro ⟨kind, first, last⟩
    exact ⟨htag ▸ kind, header ▸ first, header ▸ last⟩
  · rintro ⟨kind, first, last⟩
    exact ⟨htag.symm ▸ kind, header.symm ▸ first, header.symm ▸ last⟩

theorem Offers.one_le (offers : h.Offers a i) : 1 ≤ i :=
  Nat.le_trans (Header.one_le_childRange_fst (Nat.lt_of_le_of_lt offers.first offers.last))
    offers.first

theorem Offers.lt (offers : h.Offers a i) (ha : h.NodeSound a) : i < nodeSize :=
  Nat.lt_of_lt_of_le offers.last ha.range

/-- A counter is a number in use. -/
theorem Sound.of_counter (hs : h.Sound) (hc : h.Counter c) : h.InUse c ∧ h.tag c = .number := by
  obtain ⟨g, hg, htag, rfl⟩ := hc
  exact hs.counter hg htag

theorem Sound.not_counter (hs : h.Sound) (htag : h.tag a ≠ .number) : ¬ h.Counter a :=
  fun hc => htag (hs.of_counter hc).2

/-- The empty mark of a slot is no counter. -/
theorem Sound.not_counter_vacant (hs : h.Sound) : ¬ h.Counter vacant :=
  fun hc => hs.ne_vacant (hs.of_counter hc).1.toIsBlock rfl

theorem Sound.not_counter_unassigned (hs : h.Sound) : ¬ h.Counter unassigned :=
  hs.not_counter (by rw [hs.tag_unassigned]; decide)

theorem Sound.not_counter_undefined (hs : h.Sound) : ¬ h.Counter undefined :=
  hs.not_counter (by rw [hs.tag_undefined]; decide)

theorem Counter.congr (arena : SameArena h k) : k.Counter c ↔ h.Counter c := by
  simp only [Counter, arena.inUse, arena.tag, arena.word]

/-- Where counters are hidden and distinct, the only parent of a counter is its wait-group. -/
theorem Hides.eq_of_mem_children (hides : h.Hides) (hs : h.Sound) (distinct : h.DistinctCounters)
    {g b : Address} (hg : h.InUse g) (htag : h.tag g = .waitGroup) (hb : h.InUse b)
    (hc : h.word g 1 ∈ children h.words b) : b = g := by
  obtain ⟨hin, hnumber⟩ := hs.counter hg htag
  obtain ⟨-, i, hlo, hhi, -, hword⟩ := mem_children.1 hc
  replace hlo : (h.header b).childRange.1 ≤ i := hlo
  replace hhi : i < (h.header b).childRange.2 := hhi
  replace hword : h.word b i = h.word g 1 := hword
  have hchild := (hs.typed b hb).child i hlo hhi
  rw [hword] at hchild
  rcases hchild with ⟨-, hvacant⟩ | ⟨-, hadmits⟩
  · exact absurd hvacant (hs.ne_vacant hin.toIsBlock)
  -- Only variables, slots and wait-groups have numbers as children.
  rw [hnumber] at hadmits
  have hnot : ¬ h.Offers b i := fun offers => hides.slot b i hb offers ⟨g, hg, htag, hword.symm⟩
  cases hbtag : h.tag b with
  | frame => exact absurd ⟨.inl hbtag, hlo, hhi⟩ hnot
  | channel => exact absurd ⟨.inr hbtag, hlo, hhi⟩ hnot
  | waitGroup =>
    have hrange : (h.header b).childRange = (1, 2) := childRange_of_tag hbtag
    rw [hrange] at hlo hhi
    obtain rfl : i = 1 := by omega
    exact distinct b g hb hbtag hg htag hword
  | _ => rw [hbtag] at hadmits; cases hadmits

end Facts

/-! ## Heaps in a row -/

/-- Counters stay hidden, and no node becomes one. -/
structure Conceals (h k : Heap) : Prop where
  /-- They are hidden if they were. -/
  hides : h.Hides → k.Hides
  /-- All of them were counters. -/
  counter : ∀ c, k.Counter c → h.Counter c

namespace Conceals

variable {h k l : Heap}

theorem refl (h : Heap) : Conceals h h := ⟨id, fun _ => id⟩

theorem trans (first : Conceals h k) (second : Conceals k l) : Conceals h l :=
  ⟨fun hides => second.hides (first.hides hides), fun c hc => first.counter c (second.counter c hc)⟩

/-- Only the arena counts. -/
theorem of_arena (arena : SameArena h k) : Conceals h k where
  hides := by
    intro hides
    refine ⟨fun a i ha offers hc => ?_, fun c hc => ?_⟩
    · rw [arena.word, Counter.congr arena] at hc
      exact hides.slot a i (arena.inUse.1 ha) ((Offers.congr (arena.header a)).1 offers) hc
    · rw [arena.bottom]
      exact hides.bottom c ((Counter.congr arena).1 hc)
  counter := fun _ hc => (Counter.congr arena).1 hc

end Conceals

section Inheriting

variable {h k : Heap} {new : Address → Prop}

/-- A counter of a wait-group that is not new was one before, and is not new. -/
theorem Inherits.counter (inherits : Inherits h k new) {g : Address} (hg : k.InUse g)
    (htag : k.tag g = .waitGroup) (hold : ¬ new g) :
    h.Counter (k.word g 1) ∧ ¬ new (k.word g 1) := by
  obtain ⟨hin, same⟩ := inherits.old g hg hold
  have hrange : (k.header g).childRange = (1, 2) := childRange_of_tag htag
  have hchild := inherits.child g hg hold 1 (Nat.le_of_eq (congrArg Prod.fst hrange))
    (by rw [hrange]; decide)
  exact ⟨⟨g, hin, same.tag.symm.trans htag, (same.word 1 (by decide) (by decide)).symm⟩, hchild⟩

/-- Variables and slots that are not new hold what they held. -/
theorem Inherits.offers (inherits : Inherits h k new) (hk : k.Sound) {a i : Nat} (ha : k.InUse a)
    (hold : ¬ new a) (offers : k.Offers a i) :
    h.InUse a ∧ h.Offers a i ∧ k.word a i = h.word a i := by
  obtain ⟨hin, same⟩ := inherits.old a ha hold
  exact ⟨hin, (Offers.congr same.header).1 offers,
    same.word i offers.one_le (offers.lt (hk.typed a ha))⟩

/-- Where no wait-group is new, no new node is a counter. -/
theorem Inherits.not_counter (inherits : Inherits h k new)
    (hplain : ∀ g, k.InUse g → new g → k.tag g ≠ .waitGroup) {a : Address} (ha : new a) :
    ¬ k.Counter a := by
  rintro ⟨g, hg, htag, rfl⟩
  exact (inherits.counter hg htag fun hnew => hplain g hg hnew htag).2 ha

/-- It is enough to look at new variables and slots, if no wait-group is new. -/
theorem Inherits.conceals (inherits : Inherits h k new) (hk : k.Sound) (hbottom : k.bottom = h.bottom)
    (hplain : ∀ g, k.InUse g → new g → k.tag g ≠ .waitGroup)
    (hslot : ∀ a i, k.InUse a → new a → k.Offers a i → ¬ k.Counter (k.word a i)) :
    Conceals h k := by
  have hcounter : ∀ c, k.Counter c → h.Counter c := by
    rintro c ⟨g, hg, htag, rfl⟩
    exact (inherits.counter hg htag fun hnew => hplain g hg hnew htag).1
  refine ⟨fun hides => ⟨fun a i ha offers hc => ?_, fun c hc => ?_⟩, hcounter⟩
  · by_cases hnew : new a
    · exact hslot a i ha hnew offers hc
    · obtain ⟨hin, offers', hword⟩ := inherits.offers hk ha hnew offers
      rw [hword] at hc
      exact hides.slot a i hin offers' (hcounter _ hc)
  · rw [hbottom]
    exact hides.bottom c (hcounter c hc)

/-- A new node from which nothing can be taken, and which is no wait-group. -/
theorem Inherits.conceals_of_tag {a : Address} {t : Tag} (inherits : Inherits h k (· = a))
    (hk : k.Sound) (hbottom : k.bottom = h.bottom) (htag : k.tag a = t)
    (ht : t ≠ .waitGroup ∧ t ≠ .frame ∧ t ≠ .channel) : Conceals h k := by
  refine inherits.conceals hk hbottom ?_ ?_
  · rintro g - rfl
    rw [htag]
    exact ht.1
  · rintro b i - rfl ⟨kind, -, -⟩
    rw [htag] at kind
    exact absurd kind (not_or.2 ht.2)

/-- Plain nodes are no wait-groups, and the variables of new frames are known. -/
theorem AddsPlain.conceals {values : Address → Prop} (adds : AddsPlain h k values) (hk : k.Sound)
    (hbottom : k.bottom = h.bottom) (hvalues : ∀ w, values w → ¬ h.Counter w) : Conceals h k := by
  obtain ⟨new, inherits, hnew⟩ := adds
  have hplain : ∀ g, k.InUse g → new g → k.tag g ≠ .waitGroup := by
    intro g hg hn htag
    have hkind := (hnew g hg hn).kind
    rw [htag] at hkind
    cases hkind
  refine inherits.conceals hk hbottom hplain fun a i ha hn offers hc => ?_
  obtain ⟨g, hg, htag, hword⟩ := hc
  have hcounter := (inherits.counter hg htag fun hn' => hplain g hg hn' htag).1
  rw [hword] at hcounter
  refine hvalues _ ?_ hcounter
  obtain ⟨hframe | hchannel, hlo, hhi⟩ := offers
  · rw [childRange_frame hframe] at hlo hhi
    exact (hnew a ha hn).content hframe i hlo hhi
  · have hkind := (hnew a ha hn).kind
    rw [hchannel] at hkind
    cases hkind

end Inheriting

/-! ## Writes -/

section Writing

variable {h k : Heap} {a : Address}

/-- A write conceals counters if it puts none of them into a variable or a slot. -/
theorem Updated.conceals (u : Updated h k a) (hkind : h.tag a ≠ .waitGroup)
    (hslot : ∀ i, k.Offers a i → (h.Offers a i ∧ k.word a i = h.word a i) ∨ ¬ h.Counter (k.word a i)) :
    Conceals h k := by
  have hback : ∀ b, k.InUse b → h.InUse b := fun b hb =>
    (InUse.congr u.toWrites.size (u.tag (u.toWrites.isBlock.1 hb.toIsBlock))).1 hb
  have hcounter : ∀ c, k.Counter c → h.Counter c := by
    rintro c ⟨g, hg, htag, rfl⟩
    have hin := hback g hg
    rw [u.tag hin.toIsBlock] at htag
    have same := u.toWrites.same hin.toIsBlock fun heq => hkind (heq ▸ htag)
    exact ⟨g, hin, htag, (same.word 1 (by decide) (by decide)).symm⟩
  refine ⟨fun hides => ⟨fun b i hb offers hc => ?_, fun c hc => ?_⟩, hcounter⟩
  · have hin := hback b hb
    have hc' := hcounter _ hc
    by_cases hne : b = a
    · subst hne
      rcases hslot i offers with ⟨offers', hword⟩ | hnot
      · rw [hword] at hc'
        exact hides.slot b i hin offers' hc'
      · exact hnot hc'
    · have same := u.toWrites.same hin.toIsBlock hne
      rw [same.word i offers.one_le (offers.lt (u.sound.typed b hb))] at hc'
      exact hides.slot b i hin ((Offers.congr same.header).1 offers) hc'
  · rw [u.toWrites.bottom]
    exact hides.bottom c (hcounter c hc)

/-- The word that is written is no counter, or cannot be taken. -/
theorem Updated.conceals_setWord {i w : Nat} (u : Updated h (h.setWord a i w) a) (hs : h.Sound)
    (ha : h.InUse a) (hpos : 1 ≤ i) (hlt : i < nodeSize) (hkind : h.tag a ≠ .waitGroup)
    (hw : h.Offers a i → ¬ h.Counter w) : Conceals h (h.setWord a i w) := by
  have hb := ha.toIsBlock
  refine u.conceals hkind fun j offers => ?_
  have offers' := (Offers.congr (header_setWord hb hb hpos hlt w)).1 offers
  rw [word_setWord_block hb hb hlt (offers'.lt (hs.typed a ha))]
  by_cases hji : j = i
  · subst hji
    rw [if_pos ⟨rfl, rfl⟩]
    exact .inr (hw offers')
  · rw [if_neg fun heq => hji heq.2]
    exact .inl ⟨offers', rfl⟩

section Channels

variable (hs : h.Sound) (ha : h.InUse a) (htag : h.tag a = .channel)

include hs ha htag

/-- A slot of a channel takes a value that is no counter, and can be made vacant. -/
theorem Sound.conceals_setSlot {i w : Nat} (hi : i < h.channelSlots a) (hw : h.Child .channel w)
    (hc : ¬ h.Counter w) : Conceals h (h.setWord a (ringStart + i) w) := by
  have hle := (hs.channel_bounds ha htag).1
  have hstart : ringStart = 4 := rfl
  exact (hs.setSlot ha htag hi hw).conceals_setWord hs ha (by omega) (by omega)
    (by rw [htag]; decide) fun _ => hc

/-- The indices of a channel are in front of its slots. -/
theorem Sound.conceals_setIndex {i w : Nat} (hi : i = 2 ∨ i = 3) (hw : w < h.channelSlots a) :
    Conceals h (h.setWord a i w) := by
  have hsize : nodeSize = 10 := rfl
  refine (hs.setIndex ha htag hi hw).conceals_setWord hs ha (by omega) (by omega)
    (by rw [htag]; decide) fun offers => ?_
  have hlo := offers.first
  rw [childRange_channel htag] at hlo
  have hle : ringStart ≤ i := hlo
  have hstart : ringStart = 4 := rfl
  omega

theorem Sound.conceals_channelPush {w : Nat} (hw : h.InUse w) (hvalue : (h.tag w).isValue = true)
    (hc : ¬ h.Counter w) : Conceals h (h.channelPush a w) := by
  obtain ⟨hle, hwrite, -⟩ := hs.channel_bounds ha htag
  have hstart : ringStart = 4 := rfl
  have first := hs.setSlot ha htag hwrite (.inr ⟨hw, hvalue⟩)
  refine (hs.conceals_setSlot ha htag hwrite (.inr ⟨hw, hvalue⟩) hc).trans
    (first.sound.conceals_setIndex (first.inUse ha) (first.kind.trans htag) (.inl rfl) ?_)
  rw [channelSlots_setWord ha.toIsBlock (by omega) (by omega)]
  exact Nat.mod_lt _ (Nat.lt_of_le_of_lt (Nat.zero_le _) hwrite)

theorem Sound.conceals_channelPop : Conceals h (h.channelPop a) := by
  obtain ⟨hle, -, hread⟩ := hs.channel_bounds ha htag
  have hstart : ringStart = 4 := rfl
  have first := hs.setSlot ha htag hread (.inl ⟨rfl, rfl⟩)
  refine (hs.conceals_setSlot ha htag hread (.inl ⟨rfl, rfl⟩) hs.not_counter_vacant).trans
    (first.sound.conceals_setIndex (first.inUse ha) (first.kind.trans htag) (.inr rfl) ?_)
  rw [channelSlots_setWord ha.toIsBlock (by omega) (by omega)]
  exact Nat.mod_lt _ (Nat.lt_of_le_of_lt (Nat.zero_le _) hread)

theorem Sound.conceals_setElementKind (kind : Tag) : Conceals h (h.setElementKind a kind) := by
  have hb := ha.toIsBlock
  refine (hs.setElementKind ha htag kind).conceals (by rw [htag]; decide) fun i offers => .inl ?_
  have hheader : (h.setElementKind a kind).header a =
      { h.header a with payload := channelPayload (h.isUnbuffered a) kind.code } :=
    header_setPayload hb _
  have hrange : ((h.setElementKind a kind).header a).childRange = (h.header a).childRange := by
    rw [hheader]
    rfl
  have offers' : h.Offers a i :=
    ⟨.inr htag, hrange ▸ offers.first, hrange ▸ offers.last⟩
  exact ⟨offers', word_setElementKind hb kind offers'.one_le (offers'.lt (hs.typed a ha))⟩

end Channels

theorem Sound.conceals_setVariable {i w : Nat} (hs : h.Sound) (ha : h.InUse a)
    (htag : h.tag a = .frame) (hpos : 1 ≤ i) (hlt : i < h.size a) (hw : h.InUse w)
    (hvalue : (h.tag w).isValue = true) (hc : ¬ h.Counter w) : Conceals h (h.setWord a i w) :=
  (hs.setVariable ha htag hpos hlt hw hvalue).conceals_setWord hs ha hpos
    (Nat.lt_of_lt_of_le hlt (hs.typed a ha).le) (by rw [htag]; decide) fun _ => hc

/-- Nothing is taken out of a number. -/
theorem Sound.conceals_setGroupCount (hs : h.Sound) (ha : h.InUse a) (htag : h.tag a = .waitGroup)
    (count : Number) : Conceals h (h.setGroupCount a count) := by
  obtain ⟨hin, hnumber⟩ := hs.counter ha htag
  refine (hs.setGroupCount ha htag count).conceals_setWord hs hin (Nat.le_refl 1) (by decide)
    (by rw [hnumber]; decide) fun offers => ?_
  have hkind := offers.kind
  rw [hnumber] at hkind
  exact absurd hkind (by decide)

end Writing

/-! ## What is made -/

/-- All that was live is as it was, and counters stay hidden. -/
structure Quiet (h k : Heap) (roots : List Address) : Prop extends Grows h k roots, Conceals h k

/-- An action gives a value that is no counter, and is quiet otherwise. -/
def Shows (x : Action Address) (h : Heap) (roots : List Address) : Prop :=
  Ensures x h (fun a k => Quiet h k roots ∧ ¬ k.Counter a) fun _ k => Grows h k roots

theorem Grows.quiet {h k : Heap} {roots : List Address} {values : Address → Prop}
    (g : Grows h k roots) (adds : AddsPlain h k values) (hvalues : ∀ w, values w → ¬ h.Counter w) :
    Quiet h k roots :=
  ⟨g, adds.conceals g.sound g.bottom hvalues⟩

theorem Shows.get {f : Heap → Action Address} {h : Heap} {roots : List Address}
    (hf : Shows (f h) h roots) : Shows (do f (← get)) h roots :=
  .bind (.get hf)

section Makers

variable {h : Heap} {roots : Roots} (hs : h.Sound) (hroots : ∀ a ∈ roots.get, h.InUse a)

include hs

theorem Sound.quiet (roots : List Address) : Quiet h h roots := ⟨.refl hs _, .refl h⟩

theorem Sound.shows_pure {a : Address} (ha : ¬ h.Counter a) : Shows (pure a) h roots.get :=
  .pure ⟨hs.quiet _, ha⟩

theorem Sound.shows_throw (e : Fault) : Shows (throw e) h roots.get := .throw (.refl hs _)

theorem Sound.shows_boolean (b : Bool) : Shows (pure (boolean b)) h roots.get :=
  hs.shows_pure (hs.not_counter (by rw [hs.tag_boolean]; cases b <;> decide))

include hroots

theorem Sound.shows_newNumber (x : Number) : Shows (newNumber x roots) h roots.get := by
  refine ((hs.newNumber_ensures hroots x).and (hs.newNumber_inherits hroots x)).mono ?_ ?_
  · rintro a k ⟨made, inherits⟩
    have htag : k.tag a = .number := made.toHolds.tag
    refine ⟨⟨made.toGrows, inherits.conceals_of_tag made.sound made.bottom htag (by decide)⟩,
      inherits.not_counter ?_ rfl⟩
    rintro g - rfl
    rw [htag]
    decide
  · exact fun _ _ ⟨refused, _⟩ => refused.toGrows

theorem Sound.shows_newString (s : String) : Shows (newString s roots) h roots.get := by
  refine ((hs.newString_ensures hroots s).and
    (hs.adds_newString hroots (P := fun _ => False) s)).mono ?_ ?_
  · rintro a k ⟨has, adds⟩
    refine ⟨has.toGrows.quiet adds fun _ hw => hw.elim, has.sound.not_counter ?_⟩
    rw [has.is_string]
    decide
  · exact fun _ _ ⟨refused, _⟩ => refused.1.toGrows

theorem Sound.shows_applyUnary (op : UnaryOp) (a : Address) :
    Shows (applyUnary op a roots) h roots.get := by
  cases op with
  | neg =>
    refine .get ?_
    split
    next => exact hs.shows_newNumber hroots _
    next => exact .get (hs.shows_throw _)
  | not =>
    refine .get ?_
    split
    next => exact hs.shows_boolean _
    next => exact .get (hs.shows_throw _)

theorem Sound.shows_applyBinary (op : BinaryOp) (a b : Address) :
    Shows (applyBinary op a b roots) h roots.get := by
  cases op
  case eq | ne => exact .get (hs.shows_boolean _)
  case add =>
    refine .get ?_
    split
    next => exact hs.shows_newNumber hroots _
    next => exact hs.shows_newString hroots _
    next => exact .get (hs.shows_throw _)
  case lt | le | gt | ge =>
    refine .get ?_
    split
    next => exact hs.shows_boolean _
    next => exact hs.shows_boolean _
    next => exact .get (hs.shows_throw _)
  case sub | mul | div | mod =>
    refine .get ?_
    split
    next => exact hs.shows_newNumber hroots _
    next => exact .get (hs.shows_throw _)

/-- A new channel buffers nothing. -/
theorem Sound.shows_newChannel (capacity : Nat) : Shows (newChannel capacity roots) h roots.get := by
  refine ((hs.newChannel_ensures hroots capacity).and (hs.newChannel_inherits hroots capacity)).mono
    ?_ ?_
  · rintro a k ⟨⟨-, made⟩, inherits⟩
    have htag : k.tag a = .channel := made.toHolds.tag
    have hplain : ∀ g, k.InUse g → g = a → k.tag g ≠ .waitGroup := by
      rintro g - rfl
      rw [htag]
      decide
    refine ⟨⟨made.toGrows, inherits.conceals made.sound made.bottom hplain ?_⟩,
      made.sound.not_counter (by rw [htag]; decide)⟩
    -- All slots are vacant.
    rintro b i hb rfl offers
    have hlo := offers.first
    have hhi := offers.last
    rw [childRange_channel htag] at hlo hhi
    rw [((made.sound.typed b hb).ring htag).1] at hhi
    obtain ⟨j, rfl⟩ : ∃ j, i = ringStart + j := ⟨i - ringStart, (Nat.add_sub_cancel' hlo).symm⟩
    have hslots : k.channelSlots b = max capacity 1 := made.toHolds.word 0 (max capacity 1) rfl
    have hj : j < max capacity 1 := hslots ▸ Nat.lt_of_add_lt_add_left hhi
    have hvacant : k.word b (j + 3 + 1) = vacant :=
      made.toHolds.word (j + 3) vacant (by simp [emptyRing, hj])
    rw [show ringStart + j = j + 3 + 1 from Nat.add_comm .., hvacant]
    exact made.sound.not_counter_vacant
  · rintro e k ⟨⟨-, -, rfl⟩ | ⟨-, refused⟩, -⟩
    · exact .refl hs _
    · exact refused.toGrows

/-- A new wait-group has a new counter, and nobody has that. -/
theorem Sound.newWaitGroup_hides :
    Ensures (newWaitGroup roots) h
      (fun a k => Grows h k roots.get ∧ k.tag a = .waitGroup ∧ (h.Hides → k.Hides) ∧
        ∀ c, k.Counter c → h.Counter c ∨ ¬ h.Live roots.get c)
      fun _ k => Grows h k roots.get := by
  refine ((hs.newWaitGroup_ensures hroots).and (hs.newWaitGroup_inherits hroots)).mono ?_ ?_
  · rintro a k ⟨⟨counter, hcounter, made⟩, inherits⟩
    have hword : k.word a 1 = counter := made.toHolds.word 0 counter rfl
    have hnumber : k.tag counter = .number := hcounter.toHolds.tag
    have htag : k.tag a = .waitGroup := made.toHolds.tag
    rw [hword] at inherits
    have hcases : ∀ c, k.Counter c → h.Counter c ∧ ¬ (c = counter ∨ c = a) ∨ c = counter := by
      rintro c ⟨g, hg, hgtag, rfl⟩
      by_cases hnew : g = counter ∨ g = a
      · rcases hnew with rfl | rfl
        · rw [hnumber] at hgtag
          cases hgtag
        · exact .inr hword
      · exact .inl (inherits.counter hg hgtag hnew)
    refine ⟨made.toGrows, htag, fun hides => ⟨fun b i hb offers hc => ?_, fun c hc => ?_⟩,
      fun c hc => ?_⟩
    · have hold : ¬ (b = counter ∨ b = a) := by
        have hkind := offers.kind
        rintro (rfl | rfl)
        · rw [hnumber] at hkind
          exact absurd hkind (by decide)
        · rw [htag] at hkind
          exact absurd hkind (by decide)
      have hchild := inherits.child b hb hold i offers.first offers.last
      rcases hcases _ hc with ⟨hc', -⟩ | heq
      · obtain ⟨hin, offers', hsame⟩ := inherits.offers made.sound hb hold offers
        rw [hsame] at hc'
        exact hides.slot b i hin offers' hc'
      · exact hchild (.inl heq)
    · rw [made.bottom]
      rcases hcases c hc with ⟨hc', -⟩ | rfl
      · exact hides.bottom c hc'
      · refine Nat.le_of_not_lt fun hlt => hcounter.not_live ?_
        exact .permanent hs.toIntact hcounter.isBlock.aligned hlt
    · rcases hcases c hc with ⟨hc', -⟩ | rfl
      · exact .inl hc'
      · exact .inr hcounter.not_live
  · exact fun _ _ ⟨failed, _⟩ => failed.toGrows

section Environments

variable {environment : Address} (hlive : h.Live roots.get environment)
  (htag : h.tag environment = .environment)

include hlive htag

theorem Sound.shows_newClosure (arity entry : Nat) :
    Shows (newClosure arity entry environment roots) h roots.get := by
  refine ((hs.newClosure_ensures hroots arity entry hlive htag).and
    (hs.newClosure_inherits hroots arity entry environment)).mono ?_ ?_
  · rintro a k ⟨made, inherits⟩
    have hatag : k.tag a = .closure := made.toHolds.tag
    exact ⟨⟨made.toGrows, inherits.conceals_of_tag made.sound made.bottom hatag (by decide)⟩,
      made.sound.not_counter (by rw [hatag]; decide)⟩
  · exact fun _ _ ⟨refused, _⟩ => refused.toGrows

/-- The variables of a new scope are unassigned. -/
theorem Sound.quiet_newScope (slots : Nat) :
    Ensures (newScope environment slots roots) h (fun _ k => Quiet h k roots.get)
      fun _ k => Grows h k roots.get := by
  refine ((hs.newScope_ensures hroots hlive htag slots).and
    (hs.adds_newScope hroots hlive htag (P := (· = unassigned)) rfl slots)).mono ?_ ?_
  · rintro r k ⟨⟨-, frame, made⟩, adds⟩
    exact made.toGrows.quiet adds fun w hw => hw ▸ hs.not_counter_unassigned
  · exact fun _ _ ⟨failed, _⟩ => failed.toGrows

section Arguments

variable {arguments : List Nat}
  (harguments : ∀ w ∈ arguments, h.Live roots.get w ∧ (h.tag w).isValue = true)
  (hcounter : ∀ w ∈ arguments, ¬ h.Counter w)

include harguments hcounter

/-- The variables of a call are its arguments. -/
theorem Sound.quiet_newArguments :
    Ensures (newArguments environment arguments roots) h (fun _ k => Quiet h k roots.get)
      fun _ k => Grows h k roots.get := by
  refine ((hs.newArguments_ensures hroots hlive htag harguments).and
    (hs.adds_newArguments hroots hlive htag harguments hcounter)).mono ?_ ?_
  · rintro r k ⟨⟨frame, made⟩, adds⟩
    exact made.toGrows.quiet adds fun _ hw => hw
  · exact fun _ _ ⟨failed, _⟩ => failed.toGrows

theorem Sound.quiet_newCall (resume : Nat) {captured : Nat} (hclive : h.Live roots.get captured)
    (hctag : h.tag captured = .environment) :
    Ensures (newCall resume environment captured arguments roots) h
      (fun _ k => Quiet h k roots.get) fun _ k => Grows h k roots.get := by
  refine ((hs.newCall_ensures hroots resume hlive htag hclive hctag harguments).and
    (hs.adds_newCall hroots resume hlive htag hclive hctag harguments hcounter)).mono ?_ ?_
  · rintro r k ⟨⟨-, frame, made⟩, adds⟩
    exact made.toGrows.quiet adds fun _ hw => hw
  · exact fun _ _ ⟨failed, _⟩ => failed.toGrows

end Arguments

end Environments

end Makers

end ChannelMachine.Heap
