import ChannelMachine.Proofs.Heap.Interning
import ChannelMachine.Proofs.Heap.Keeping
import ChannelMachine.Proofs.Heap.Sealing

/-!
# Values of the host in the heap

A value that is put into a heap is read back from its node, at once and after anything that happens while
the node stays rooted (`Produced.boxes`).  Only a number gets a node of its own.  A text has one node, and
the constants are permanent, so the same value put in again later is at the same node.

`Embodies h a v` says which node is that of a value.  A number or a text is kept as what is alive is kept
(`Takes.keeps_alive`), and a constant as what is permanent is kept (`Endures`).  This holds of heaps whose
nodes are large enough for their children; `changes_boxed_stale` is about one that is not.
-/

namespace ChannelMachine

/-- Whether a value of the host can be put into a heap. -/
def Value.isBoxable : Value → Bool
  | .number _ | .bool _ | .text _ | .null | .undefined | .unassigned => true
  | .closure | .builtin _ | .channel | .waitGroup => false

namespace Heap

variable {h k : Heap} {a : Address} {roots : Roots} {v : Value} {nodes : Address → Prop}

/-! ## The constants of a heap -/

/-- A heap that operations lead to follows upon a new one. -/
theorem Produced.follows (produced : Produced h) :
    ∃ words new, Heap.create words = .ok new ∧ Follows new h := by
  induction produced with
  | create hcreate => exact ⟨_, _, hcreate, .refl⟩
  | operate produced operates ih =>
    obtain ⟨words, new, hcreate, follows⟩ := ih
    exact ⟨words, new, hcreate, follows.trans (operates.follows produced.formed)⟩

/-- The constants are at the start. -/
theorem Produced.tag_constant (produced : Produced h) {i : Nat} {t : Tag}
    (ht : constants[i]? = some t) : h.tag (addressOf i) = t := by
  obtain ⟨words, new, hcreate, follows⟩ := produced.follows
  obtain ⟨l, tiled⟩ := tiled_of_create hcreate
  have hh := initial_of_create hcreate
  have hlt : addressOf i < new.bottom := by
    rw [hh.bottom]
    exact Nat.mul_lt_mul_of_pos_left (List.getElem?_eq_some_iff.1 ht).1 (by decide)
  exact ((follows.endures tiled).tag _ (hh.intact.constant_inUse ht).toIsBlock hlt).trans
    (hh.intact.constant i t ht)

theorem Produced.tag_boolean (produced : Produced h) (b : Bool) :
    h.tag (boolean b) = if b then .true else .false := by
  cases b
  · exact produced.tag_constant (i := 0) rfl
  · exact produced.tag_constant (i := 1) rfl

/-! ## The node of a value -/

/-- The node at an address is that of a value. -/
def Embodies (h : Heap) (a : Address) : Value → Prop
  | .number x => h.IsBlock a ∧ h.tag a = .number ∧ h.word a 1 = x.bits.toNat
  | .text s => h.IsBlock a ∧ h.tag a = .string ∧ h.text? a = some s
  | .bool b => a = boolean b
  | .null => a = null
  | .undefined => a = undefined
  | .unassigned => a = unassigned
  | .closure | .builtin _ | .channel | .waitGroup => False

/-- The value is read off its node. -/
theorem Embodies.unbox (embodies : Embodies h a v) (produced : Produced h) : h.unbox a = v := by
  unfold Heap.unbox
  cases v with
  | number x =>
    obtain ⟨-, htag, hword⟩ := embodies
    simp only [htag, number?, if_true, hword, UInt64.ofNat_toNat, Option.getD_some]
  | text s =>
    obtain ⟨-, htag, htext⟩ := embodies
    simp only [htag, htext, Option.getD_some]
  | bool b =>
    obtain rfl : a = boolean b := embodies
    rw [produced.tag_boolean]
    cases b <;> rfl
  | null =>
    obtain rfl : a = null := embodies
    simp only [null, produced.tag_constant (i := 2) rfl]
  | undefined =>
    obtain rfl : a = undefined := embodies
    simp only [undefined, produced.tag_constant (i := 4) rfl]
  | unassigned =>
    obtain rfl : a = unassigned := embodies
    simp only [unassigned, produced.tag_constant (i := 3) rfl]
  | closure | builtin | channel | waitGroup => exact embodies.elim

/-- A text and a constant have one node only. -/
theorem Embodies.box_eq (embodies : Embodies h a v) (hf : h.Formed) (hv : ∀ x, v ≠ .number x)
    (roots : Roots) : box v roots h = .ok a h := by
  cases v with
  | number x => exact absurd rfl (hv x)
  | text s =>
    obtain ⟨hb, -, htext⟩ := embodies
    change newString s roots h = .ok a h
    have hget : (get : Action Heap) h = .ok h h := rfl
    simp only [newString, bind, EStateM.bind, hget, hf.strings_of_text? hb htext]
    rfl
  | bool b =>
    obtain rfl : a = boolean b := embodies
    rfl
  | null =>
    obtain rfl : a = null := embodies
    rfl
  | undefined =>
    obtain rfl : a = undefined := embodies
    rfl
  | unassigned =>
    obtain rfl : a = unassigned := embodies
    rfl
  | closure | builtin | channel | waitGroup => exact embodies.elim

/-- An allocation of a size that a node has fails only where no node is free. -/
theorem ensures_exhausted (t : Tag) {n : Nat} (hpos : 1 ≤ n) (hle : n ≤ nodeSize) :
    Ensures (allocate t n roots) h (fun _ _ => True) (fun e _ => e = .heapExhausted) := by
  unfold Ensures allocate
  rw [if_neg (by omega)]
  dsimp only
  by_cases hfree : (h.refill roots).free = noNode
  · simp only [if_pos hfree]
  · simp only [if_neg hfree]

section Box

variable (hf : h.Formed) (hroots : ∀ a ∈ roots.get, h.IsBlock a)
include hf hroots

/-- A new number node is that of the number. -/
theorem Formed.embodies_number (x : Number) : Ensures (newNumber x roots) h
    (fun a k => Embodies k a (.number x)) (fun e _ => e = .heapExhausted) := by
  refine .bind (((hf.ensures_allocate hroots .number 2).and
    (ensures_exhausted .number (by decide) (by decide))).mono ?_ fun _ _ => And.right)
  rintro a k ⟨al, -⟩
  have hb := al.isBlock
  have w := writes_setWord hb (i := 1) (by decide) x.bits.toNat
  have hword : (k.setNumber a x).word a 1 = x.bits.toNat :=
    word_setWord_self (Nat.lt_of_lt_of_le (Nat.add_lt_add_left (by decide) a) hb.inside) _
  have htag : (k.setNumber a x).tag a = .number :=
    (congrArg Header.tag (header_setWord hb hb (Nat.le_refl 1) (by decide) _)).trans al.tag_self
  exact .bind (.modifyGet (.pure ⟨w.isBlock.2 hb, htag, hword⟩))

/-- The node of a text has it, whether it is new or not. -/
theorem Formed.embodies_text (s : String) : Ensures (newString s roots) h
    (fun a k => Embodies k a (.text s)) (fun e _ => e = .heapExhausted) := by
  refine .bind (.get ?_)
  split
  next a hs => exact .pure (hf.text? hs)
  next =>
    refine .bind (((hf.ensures_allocate hroots .string 2).and
      (ensures_exhausted .string (by decide) (by decide))).mono ?_ fun _ _ => And.right)
    rintro a k ⟨al, -⟩
    have hb : (k.intern a s).IsBlock a :=
      (IsBlock.congr (k := k.intern a s) (size_words_setWord k a 1 k.nextText)).2 al.isBlock
    exact .bind (.modifyGet (.pure ⟨hb, text?_intern al.isBlock al.tag_self⟩))

/-- The node that a value is put into is that of the value. -/
theorem Formed.embodies_box (hv : v.isBoxable = true) : Ensures (box v roots) h
    (fun a k => Embodies k a v) (fun e _ => e = .heapExhausted) := by
  cases v with
  | number x => exact hf.embodies_number hroots x
  | text s => exact hf.embodies_text hroots s
  | bool | null | undefined | unassigned => exact .pure rfl
  | closure | builtin | channel | waitGroup => cases hv

end Box

/-! ## What happens to it -/

/-- An operation on a heap through which a node stays rooted. -/
inductive Continues (a : Address) (h : Heap) : Heap → Prop where
  /-- A node is allocated, which succeeds or fails, or there is a collection. -/
  | takes {k : Heap} (roots : Roots) (hroots : ∀ b ∈ roots.get, h.IsBlock b) (hlive : h.Live roots.get a)
      (takes : Takes h roots k) : Continues a h k
  /-- An environment gets a frame more, where neither of them has to be rooted. -/
  | extend (environment frame : Address) (roots : Roots) (hroots : ∀ b ∈ roots.get, h.IsBlock b)
      (hlive : h.Live roots.get a) (henvironment : h.IsBlock environment)
      (htag : h.tag environment = .environment) (hframe : h.IsBlock frame) :
      Continues a h (leaves (extend environment frame roots) h)
  /-- A variable is assigned. -/
  | assign (environment : Address) (p : Position) (value : Address) (henvironment : h.IsBlock environment)
      (htag : h.tag environment = .environment) (hvalue : h.IsBlock value) :
      Continues a h (leaves (assign environment p value) h)
  /-- A value is put into a channel. -/
  | channelPush (c value : Address) (hc : h.IsBlock c) (htag : h.tag c = .channel)
      (hvalue : h.IsBlock value) : Continues a h (h.channelPush c value)
  /-- A value is taken out of a channel. -/
  | channelPop (c : Address) (hc : h.IsBlock c) (htag : h.tag c = .channel) :
      Continues a h (h.channelPop c)
  /-- Nodes are being built, or no longer. -/
  | withBuilding (building : List Address) (hbuilding : ∀ b ∈ building, h.IsBlock b) :
      Continues a h (h.withBuilding building)
  /-- What was allocated so far becomes permanent. -/
  | sealAll : Continues a h h.sealAll
  /-- Collections are reported from now on, or no longer. -/
  | trace (tracing : Bool) : Continues a h { h with tracing }

/-- A node is the same in both heaps, and so is its text. -/
structure LeavesAlone (h k : Heap) (a : Address) : Prop where
  /-- The arena has its size. -/
  size : k.words.size = h.words.size
  /-- The words of the node. -/
  node : SameNode h k a
  /-- Its text. -/
  text : k.text? a = h.text? a

theorem Keeps.leavesAlone (keeps : Keeps h k nodes) (ha : nodes a) : LeavesAlone h k a :=
  ⟨keeps.size, keeps.node a ha, keeps.text a ha⟩

/-- Then it is the node of the same value. -/
theorem LeavesAlone.embodies (alone : LeavesAlone h k a) (embodies : Embodies h a v) : Embodies k a v := by
  cases v with
  | number x =>
    obtain ⟨hb, htag, hword⟩ := embodies
    exact ⟨(IsBlock.congr alone.size).2 hb, alone.node.tag.trans htag,
      (alone.node.word 1 (Nat.le_refl 1) (by decide)).trans hword⟩
  | text s =>
    obtain ⟨hb, htag, htext⟩ := embodies
    exact ⟨(IsBlock.congr alone.size).2 hb, alone.node.tag.trans htag, alone.text.trans htext⟩
  | bool | null | undefined | unassigned => exact embodies
  | closure | builtin | channel | waitGroup => exact embodies

namespace Continues

/-- It is an operation like others. -/
theorem operates (continues : Continues a h k) (hf : h.Formed) : Operates h k := by
  cases continues with
  | takes roots hroots hlive takes =>
    cases takes with
    | allocate t n hstring hchannel hchildren => exact .allocate t n roots hroots hstring hchannel hchildren
    | newNumber x => exact .newNumber x roots hroots
    | newString text => exact .newString text roots hroots
    | box value => exact .box value roots hroots
    | newFrame slots => exact .newFrame slots roots hroots
    | emptyEnvironment => exact .emptyEnvironment roots hroots
    | extend environment frame henvironment htag hframe =>
      exact .extend environment frame roots hroots (hf.isBlock_of_live hroots henvironment) htag
        (hf.isBlock_of_live hroots hframe)
    | newChannel capacity => exact .newChannel capacity roots hroots
    | newWaitGroup => exact .newWaitGroup roots hroots
    | collect => exact .collect roots.get hroots
  | extend environment frame roots hroots hlive henvironment htag hframe =>
    exact .extend environment frame roots hroots henvironment htag hframe
  | assign environment p value henvironment htag hvalue =>
    exact .assign environment p value henvironment htag hvalue
  | channelPush c value hc htag hvalue => exact .channelPush c value hc htag hvalue
  | channelPop c hc htag => exact .channelPop c hc htag
  | withBuilding building hbuilding => exact .withBuilding building hbuilding
  | sealAll => exact .sealAll
  | trace tracing => exact .trace tracing

/-- A number and a text stay as they are.  What is rooted is not reclaimed, and the nodes that are written
are of other kinds. -/
theorem leavesAlone (continues : Continues a h k) (hf : h.Formed) (ha : h.IsBlock a)
    (htag : h.tag a = .number ∨ h.tag a = .string) : LeavesAlone h k a := by
  have hne {b : Address} {t : Tag} (hb : h.tag b = t) (ht : t ≠ .number ∧ t ≠ .string) : a ≠ b := by
    rintro rfl
    rcases htag with htag | htag
    · exact ht.1 (hb.symm.trans htag)
    · exact ht.2 (hb.symm.trans htag)
  have halive {roots : List Address} (hlive : h.Live roots a) : h.Alive roots a := by
    refine ⟨hlive, ?_⟩
    rcases htag with htag | htag
    all_goals
      rw [htag]
      decide
  have hwrites {b : Address} (w : Writes h k b) (hne : a ≠ b) : LeavesAlone h k a :=
    ((Keeps.refl h (· = a)).writes w fun c hc => hc ▸ ⟨ha, hne⟩).leavesAlone rfl
  have hring {c i w j n : Nat} (hc : h.IsBlock c) (hchannel : h.tag c = .channel)
      (hi : i < h.channelSlots c) (hj : j < nodeSize)
      (hk : k = (h.setWord c (ringStart + i) w).setWord c j n) : LeavesAlone h k a := by
    have first := writes_setWord hc (hf.slot_lt hc hchannel hi) w
    subst hk
    exact hwrites (first.trans (writes_setWord (first.isBlock.2 hc) hj n)) (hne hchannel (by decide))
  cases continues with
  | takes roots hroots hlive takes => exact (takes.keeps_alive hf hroots).leavesAlone (halive hlive)
  | extend environment frame roots hroots hlive =>
    exact (leaves_of_ensures (hf.keeps_extend hroots environment frame)).leavesAlone (halive hlive)
  | assign environment p value henvironment henv =>
    unfold leaves Heap.assign at *
    cases hslot : h.slotOf? environment p with
    | none => exact ⟨rfl, .refl h a, rfl⟩
    | some slot =>
      obtain ⟨hb, hframe, -, hlt⟩ := hf.of_slotOf? henvironment henv hslot
      simp only [hslot] at hwrites
      exact hwrites (writes_setWord hb hlt value) (hne hframe (by decide))
  | channelPush c value hc hchannel =>
    exact hring hc hchannel ((hf.nodeFormed hc).ring hchannel).2.1 (by decide) rfl
  | channelPop c hc hchannel =>
    exact hring hc hchannel ((hf.nodeFormed hc).ring hchannel).2.2 (by decide) rfl
  | withBuilding => exact ⟨rfl, ⟨rfl, fun _ _ _ => rfl⟩, rfl⟩
  | sealAll => exact ⟨rfl, ⟨rfl, fun _ _ _ => rfl⟩, rfl⟩
  | trace => exact ⟨rfl, ⟨rfl, fun _ _ _ => rfl⟩, rfl⟩

/-- A value stays at its node. -/
theorem embodies (continues : Continues a h k) (hf : h.Formed) (embodies : Embodies h a v) :
    Embodies k a v := by
  cases v with
  | number x => exact (continues.leavesAlone hf embodies.1 (.inl embodies.2.1)).embodies embodies
  | text s => exact (continues.leavesAlone hf embodies.1 (.inr embodies.2.1)).embodies embodies
  | bool | null | undefined | unassigned => exact embodies
  | closure | builtin | channel | waitGroup => exact embodies

end Continues

/-- What follows upon a heap while a node stays rooted. -/
abbrev Spans (a : Address) : Heap → Heap → Prop := Relation.ReflTransGen (Continues a)

theorem Spans.embodies (spans : Spans a h k) (produced : Produced h) (embodies : Embodies h a v) :
    Produced k ∧ Embodies k a v := by
  induction spans with
  | refl => exact ⟨produced, embodies⟩
  | tail _ continues ih =>
    obtain ⟨produced, embodies⟩ := ih
    exact ⟨produced.operate (continues.operates produced.formed), continues.embodies produced.formed embodies⟩

/-! ## The law -/

/-- A value of the host is at an address. -/
structure Boxed (h : Heap) (a : Address) (v : Value) : Prop where
  /-- It is read back from there, with all bits if it is a number. -/
  unbox : h.unbox a = v
  /-- If it is none it is put nowhere else, and takes no node. -/
  box : (∀ x, v ≠ .number x) → ∀ roots, Heap.box v roots h = .ok a h

/-- What becomes of a value that is put into a heap. -/
structure Boxes (h : Heap) (v : Value) : Prop where
  /-- There is no node for it, or it is at one for as long as that is rooted. -/
  boxed : v.isBoxable = true → ∀ roots : Roots, (∀ b ∈ roots.get, h.IsBlock b) →
    (∃ k, box v roots h = .error .heapExhausted k) ∨
      ∃ a k, box v roots h = .ok a k ∧ ∀ l, Spans a k l → Boxed l a v
  /-- What cannot be put into a heap leaves it as it is. -/
  rejected : v.isBoxable = false → ∀ roots, box v roots h = .error (.type (.unboxable v)) h

theorem Embodies.boxed (embodies : Embodies h a v) (produced : Produced h) : Boxed h a v :=
  ⟨embodies.unbox produced, embodies.box_eq produced.formed⟩

/-- Values are put into any heap that operations lead to, and stay there. -/
theorem Produced.boxes (produced : Produced h) (v : Value) : Boxes h v := by
  refine ⟨fun hv roots hroots => ?_, fun hv roots => ?_⟩
  · have made := produced.formed.embodies_box hroots hv
    have hleaves : Operates h (leaves (box v roots) h) := .box v roots hroots
    cases hbox : box v roots h with
    | error e k =>
      obtain rfl := made.of_error hbox
      exact .inl ⟨k, rfl⟩
    | ok a k =>
      rw [leaves, hbox] at hleaves
      refine .inr ⟨a, k, rfl, fun l spans => ?_⟩
      obtain ⟨later, embodies⟩ := spans.embodies (produced.operate hleaves) (made.of_ok hbox)
      exact embodies.boxed later
  · cases v with
    | closure | builtin | channel | waitGroup => rfl
    | number | bool | text | null | undefined | unassigned => cases hv

/-- A text that was put into a heap is there after a collection with its node as the only root. -/
theorem boxes_spelled : Produced spelled ∧ Boxes spelled (.text "kept") ∧
    box (.text "kept") noRoots spelled = .ok 60 spelled ∧ Boxed (spelled.collect [60]) 60 (.text "kept") := by
  obtain ⟨hsize, htag, htext⟩ : spelled.words.size = 100 ∧ spelled.tag 60 = .string ∧
      spelled.text? 60 = some "kept" := by
    decide +kernel
  have hb : spelled.IsBlock 60 := ⟨by decide, by rw [hsize]; decide⟩
  have hbox : box (.text "kept") noRoots spelled = .ok 60 spelled :=
    Embodies.box_eq (v := .text "kept") ⟨hb, htag, htext⟩ produced_spelled.formed (fun _ => nofun) noRoots
  have boxes := produced_spelled.boxes (.text "kept")
  refine ⟨produced_spelled, boxes, hbox, ?_⟩
  obtain ⟨k, hnone⟩ | ⟨a, k, hok, hboxed⟩ := boxes.boxed rfl noRoots fun b hb => nomatch hb
  · rw [hbox] at hnone
    cases hnone
  · rw [hbox] at hok
    cases hok
    refine hboxed _ (.single (.takes ⟨fun _ => [60]⟩ ?_ (.root (List.mem_cons_self ..)) .collect))
    exact fun b hmem => List.mem_singleton.1 hmem ▸ hb

/-- A number that was put into a heap is a root of two collections.  Before the second one a node was
allocated that is too small for its child, and then it is another number. -/
theorem changes_boxed_stale : ∃ k, box (.number ⟨0x3ff0000000000000⟩) noRoots ten = .ok 50 k ∧
    stale = leaves (allocate .blockframe 1 ⟨fun _ => [50]⟩)
      ((leaves (newNumber ⟨51⟩ noRoots) k).collect [50]) ∧
    stale.unbox 50 = .number ⟨0x3ff0000000000000⟩ ∧ stale.Live [50, 60] 50 ∧
    (stale.collect [50, 60]).unbox 50 ≠ .number ⟨0x3ff0000000000000⟩ := by
  obtain ⟨hbefore, hafter⟩ : stale.unbox 50 = .number ⟨0x3ff0000000000000⟩ ∧
      (stale.collect [50, 60]).unbox 50 ≠ .number ⟨0x3ff0000000000000⟩ := by
    decide +kernel
  exact ⟨_, eq_ok_leaves (by decide +kernel), rfl, hbefore, .root (List.mem_cons_self ..), hafter⟩

end Heap

end ChannelMachine
