import ChannelMachine.Heap.Environment
import ChannelMachine.Heap.WaitGroup
import ChannelMachine.Proofs.Heap.Making

/-!
# What the heap builds

One lemma for each action that makes nodes: the heap grows by nodes with the header and the words
that the lemma names, or the action is refused.  The scopes and calls make several nodes; each is
made as any other while those before it are held.
-/

namespace ChannelMachine.Heap

/-! ## Contents of the kinds -/

theorem toNat_size {n : Nat} (hn : n ≤ nodeSize) (t : Tag) : (Header.fresh t n).size.toNat = n := by
  rw [Header.fresh, UInt16.toNat_ofNat']
  exact Nat.mod_eq_of_lt (Nat.lt_of_le_of_lt hn (by decide))

/-- The words of a node without children. -/
theorem contents_plain {h : Heap} {roots : List Address} {header : Header} {ws : List Nat}
    (hsize : header.size.toNat = ws.length + 1) (hle : ws.length + 1 ≤ nodeSize)
    (hmark : header.mark = 0) (hrange : header.childRange = (0, 0)) (ht : header.tag ≠ .channel) :
    Contents h roots header ws where
  size := hsize
  le := hle
  mark := hmark
  range := by
    rw [hrange]
    exact Nat.zero_le _
  child := by
    intro i w _ hlt
    rw [hrange] at hlt
    exact absurd hlt (Nat.not_lt_zero _)
  ring := fun h => absurd h ht

/-- The words of a node that are all children. -/
theorem contents_children {h : Heap} {roots : List Address} {header : Header} {ws : List Nat}
    (hsize : header.size.toNat = ws.length + 1) (hle : ws.length + 1 ≤ nodeSize)
    (hmark : header.mark = 0) (hrange : header.childRange = (1, ws.length + 1))
    (ht : header.tag ≠ .channel)
    (hchild : ∀ w ∈ ws, h.Live roots w ∧ header.tag.Admits (h.tag w)) :
    Contents h roots header ws where
  size := hsize
  le := hle
  mark := hmark
  range := Nat.le_of_eq (congrArg Prod.snd hrange)
  child := fun _ w _ _ hw => .inr (hchild w (List.mem_of_getElem? hw))
  ring := fun h => absurd h ht

/-! ## Filling -/

theorem holds_setWords {h : Heap} {a : Address} {ws : List Nat} (ha : h.IsBlock a)
    (hle : 1 + ws.length ≤ nodeSize) : Holds (h.setWords a 1 ws) a (h.header a) ws := by
  refine ⟨header_setWords ha ha (Nat.le_refl 1) hle, fun i w hw => ?_⟩
  have hlt := (List.getElem?_eq_some_iff.1 hw).1
  rw [word_setWords_block ws ha ha hle (by omega), if_pos ⟨rfl, by omega⟩,
    Nat.add_sub_cancel, List.getD_eq_getElem?_getD, hw, Option.getD_some]

theorem holds_setPayload_setWords {h : Heap} {a : Address} (ha : h.IsBlock a) (payload : UInt32)
    (ws : List Nat) (hle : 1 + ws.length ≤ nodeSize) :
    Writes h ((h.setPayload a payload).setWords a 1 ws) a ∧
      Holds ((h.setPayload a payload).setWords a 1 ws) a { h.header a with payload } ws := by
  have w := writes_setPayload ha payload
  have hb := w.isBlock.2 ha
  refine ⟨w.trans (writes_setWords ws hb hle), ?_⟩
  rw [← header_setPayload ha payload]
  exact holds_setWords hb hle

/-! ## Numbers -/

theorem setNumber_eq (h : Heap) (a : Address) (x : Number) :
    h.setNumber a x = h.setWords a 1 [x.bits.toNat] := rfl

theorem Sound.newNumber_ensures {h : Heap} (hs : h.Sound) {roots : Roots}
    (hroots : ∀ a ∈ roots.get, h.InUse a) (x : Number) :
    Ensures (newNumber x roots) h
      (fun a k => Made h k roots.get a (.fresh .number 2) [x.bits.toNat])
      (fun e k => Refused h k roots.get 2 e) := by
  refine hs.make_ensures hroots .number (.fresh .number 2) [x.bits.toNat] rfl (by decide)
    (by decide) ?_ ?_
  · intro _ hle
    exact contents_plain rfl hle rfl rfl (by decide)
  · intro a k f hle
    rw [← f.header, setNumber_eq]
    exact ⟨writes_setWords _ f.isBlock hle, holds_setWords f.isBlock hle⟩

/-! ## Texts -/

/-- The node of a text. -/
structure HasText (h k : Heap) (roots : List Address) (a : Nat) (s : String) : Prop extends
    Grows h k roots, InUse k a where
  /-- It was a node of the arena. -/
  isBlock : h.IsBlock a
  /-- It is a string node. -/
  is_string : k.tag a = .string
  /-- It has the text. -/
  has : k.text? a = some s

/-- The node of a text is found by its text. -/
theorem Interned.text? {h : Heap} (hi : h.Interned) {s : String} {a : Address}
    (hs : h.strings[s]? = some a) : h.IsBlock a ∧ h.tag a = .string ∧ h.text? a = some s := by
  obtain ⟨hb, htag, htext⟩ := hi.node s a hs
  exact ⟨hb, htag, by rw [Heap.text?, if_pos htag, htext]⟩

/-- A node with a text is the node of its text. -/
theorem Interned.strings_of_text? {h : Heap} (hi : h.Interned) {s : String} {a : Address}
    (ha : h.IsBlock a) (hs : h.text? a = some s) : h.strings[s]? = some a := by
  rw [Heap.text?] at hs
  split at hs
  next htag =>
    obtain ⟨t, ht, hnode⟩ := hi.text a ha htag
    rw [ht] at hs
    exact Option.some.inj hs ▸ hnode
  next => cases hs

section Intern

variable {k : Heap} {a : Nat} {s : String}

theorem sameArena_intern (k : Heap) (a : Address) (s : String) :
    SameArena (k.setWord a 1 k.nextText) (k.intern a s) := ⟨rfl, rfl, rfl, rfl⟩

/-- The node of the new text has it. -/
theorem word_intern (ha : k.IsBlock a) : (k.intern a s).word a 1 = k.nextText := by
  rw [(sameArena_intern k a s).word]
  exact word_setWord_self (Nat.lt_of_lt_of_le (Nat.add_lt_add_left (by decide) a) ha.inside) _

theorem same_intern (ha : k.IsBlock a) {b : Nat} (hb : k.IsBlock b) (hne : b ≠ a) :
    SameNode k (k.intern a s) b :=
  ((writes_setWord ha (by decide) _).same hb hne).trans ((sameArena_intern k a s).same b)

theorem header_intern (ha : k.IsBlock a) : (k.intern a s).header a = k.header a := by
  rw [(sameArena_intern k a s).header, header_setWord ha ha (Nat.le_refl 1) (by decide)]

/-- The other texts stay. -/
theorem texts_intern (hk : k.InternedBut a) {n : Nat} {t : String} (ht : k.texts[n]? = some t) :
    (k.intern a s).texts[n]? = some t := by
  have hne : k.nextText ≠ n := Nat.ne_of_gt (hk.next n t ht)
  change (k.texts.insert k.nextText s)[n]? = some t
  simp [Std.TreeMap.getElem?_insert, hne, ht]

theorem texts_intern_self : (k.intern a s).texts[k.nextText]? = some s := by
  change (k.texts.insert k.nextText s)[k.nextText]? = some s
  simp

/-- A string node takes the text. -/
theorem text?_intern (ha : k.IsBlock a) (htag : k.tag a = .string) :
    (k.intern a s).tag a = .string ∧ (k.intern a s).text? a = some s := by
  have htag' : (k.intern a s).tag a = .string := (congrArg Header.tag (header_intern ha)).trans htag
  rw [Heap.text?, if_pos htag', word_intern ha]
  exact ⟨htag', texts_intern_self⟩

theorem interned_intern (hk : k.InternedBut a) (ha : k.IsBlock a) (htag : k.tag a = .string)
    (hnew : k.strings[s]? = none) : (k.intern a s).Interned where
  text := by
    intro b hb hstring
    have hb' := (IsBlock.congr (size_words_setWord k a 1 k.nextText)).1
      ((sameArena_intern k a s).isBlock.1 hb)
    by_cases hne : b = a
    · refine ⟨s, ?_, ?_⟩
      · rw [hne, word_intern ha, texts_intern_self]
      · change (k.strings.insert s a)[s]? = some b
        simp [hne]
    · have same := same_intern (s := s) ha hb' hne
      obtain ⟨t, ht, hnode⟩ := hk.text b hb' hne (same.tag ▸ hstring)
      refine ⟨t, ?_, ?_⟩
      · rw [same.word 1 (by decide) (by decide), texts_intern hk ht]
      · have hst : s ≠ t := by
          rintro rfl
          rw [hnew] at hnode
          cases hnode
        change (k.strings.insert s a)[t]? = some b
        simp [Std.TreeMap.getElem?_insert, hst, hnode]
  node := by
    intro t b ht
    change (k.strings.insert s a)[t]? = some b at ht
    rw [Std.TreeMap.getElem?_insert] at ht
    split at ht
    next heq =>
      obtain rfl : a = b := Option.some.inj ht
      obtain rfl : s = t := Std.LawfulEqCmp.compare_eq_iff_eq.1 heq
      refine ⟨(sameArena_intern k a s).isBlock.2 ((writes_setWord ha (by decide) _).isBlock.2 ha),
        ?_, ?_⟩
      · rw [tag, header_intern ha]
        exact htag
      · rw [word_intern ha, texts_intern_self]
    next =>
      obtain ⟨hne, hb, hstring, htext⟩ := hk.node t b ht
      have same := same_intern (s := s) ha hb hne
      refine ⟨(sameArena_intern k a s).isBlock.2 ((writes_setWord ha (by decide) _).isBlock.2 hb),
        same.tag.trans hstring, ?_⟩
      rw [same.word 1 (by decide) (by decide), texts_intern hk htext]
  next := by
    intro n t ht
    change (k.texts.insert k.nextText s)[n]? = some t at ht
    change n < k.nextText + 1
    rw [Std.TreeMap.getElem?_insert] at ht
    split at ht
    next heq =>
      rw [← Std.LawfulEqCmp.compare_eq_iff_eq.1 heq]
      exact Nat.lt_succ_self _
    next => exact Nat.lt_succ_of_lt (hk.next n t ht)

end Intern

/-- Naming the text of a fresh string node leaves a sound heap. -/
theorem Fresh.intern {h k : Heap} {roots : List Address} {a : Nat} {s : String} (hs : h.Sound)
    (f : Fresh h k roots a .string 2) (hnew : h.strings[s]? = none) :
    HasText h (k.intern a s) roots a s := by
  have hnone : k.strings[s]? = none := by
    rw [Option.eq_none_iff_forall_ne_some]
    intro b hsome
    obtain ⟨hne, hb, hstring, htext⟩ := f.texts.node s b hsome
    obtain ⟨hin, hold⟩ := f.old b ⟨hb, by rw [hstring]; decide⟩ hne
    rw [Heap.text?, if_pos hstring, htext] at hold
    rw [hs.toInterned.strings_of_text? hin.toIsBlock hold.symm] at hnew
    cases hnew
  have arena := sameArena_intern k a s
  have w := writes_setWord f.isBlock (i := 1) (by decide) k.nextText
  have hsize := arena.size.trans w.size
  have hheader : (k.intern a s).header a = .fresh .string 2 :=
    (header_intern f.isBlock).trans f.header
  have htag : (k.intern a s).tag a = .string := congrArg Header.tag hheader
  have hsame : ∀ b, k.IsBlock b → b ≠ a → SameNode k (k.intern a s) b :=
    fun b => same_intern f.isBlock
  have hinUse : ∀ b, k.InUse b → (k.intern a s).InUse b := by
    intro b hb
    by_cases hne : b = a
    · exact ⟨(IsBlock.congr hsize).2 hb.toIsBlock, by rw [hne, htag]; decide⟩
    · exact (InUse.congr hsize (hsame b hb.toIsBlock hne).tag).2 hb
  have hne : ∀ b, h.Live roots b → b ≠ a := by
    rintro b hb rfl
    exact f.not_live hb
  have hnode : (k.intern a s).NodeSound a := by
    refine ⟨?_, ?_, ?_, fun hchannel => ?_⟩
    · rw [Heap.size, hheader]
      decide
    · rw [Heap.size, hheader]
      decide
    · intro i _ hlt
      rw [hheader] at hlt
      exact absurd hlt (Nat.not_lt_zero i)
    · rw [htag] at hchannel
      cases hchannel
  have hsound : (k.intern a s).Sound := by
    refine ⟨?_, interned_intern f.texts f.isBlock f.tag_self hnone, fun b hb => ?_, fun b hb => ?_⟩
    · refine (f.intact.writes (f.soundBut (by decide)).inUse w ?_ ?_).congr arena
      · exact congrArg Header.tag (header_setWord f.isBlock f.isBlock (Nat.le_refl 1) (by decide) _)
      · rw [header_setWord f.isBlock f.isBlock (Nat.le_refl 1) (by decide), f.header]
        rfl
    · by_cases hba : b = a
      · exact hba ▸ hnode
      · have same := hsame b ((IsBlock.congr hsize).1 hb.toIsBlock) hba
        obtain ⟨hn, hchild⟩ := f.others b ((InUse.congr hsize same.tag).1 hb) hba
        refine hn.congr same hsize fun i hle hlt hin => ?_
        exact (hsame _ hin.toIsBlock (hchild i hle hlt)).tag
    · exact hinUse b (f.held b hb).1
  refine ⟨⟨⟨hsize.trans f.toKeeps.size, f.bottom, fun b hb => ?_, fun b hb => ?_⟩, f.building,
    hsound⟩, hinUse a (f.soundBut (by decide)).inUse, f.toKeeps.isBlock.1 f.isBlock, htag, ?_⟩
  · exact (f.node b hb).trans (hsame b (f.live b hb).toIsBlock (hne b hb))
  · have same := hsame b (f.live b hb).toIsBlock (hne b hb)
    rw [← f.text b hb, Heap.text?, Heap.text?, same.tag, same.word 1 (by decide) (by decide)]
    split
    next hstring =>
      obtain ⟨t, ht, -⟩ := f.texts.text b (f.live b hb).toIsBlock (hne b hb) hstring
      rw [ht, texts_intern f.texts ht]
    next => rfl
  · rw [Heap.text?, if_pos htag, word_intern f.isBlock, texts_intern_self]

theorem Sound.newString_ensures {h : Heap} (hs : h.Sound) {roots : Roots}
    (hroots : ∀ a ∈ roots.get, h.InUse a) (s : String) :
    Ensures (newString s roots) h
      (fun a k => HasText h k roots.get a s)
      (fun e k => Refused h k roots.get 2 e ∧ h.strings[s]? = none) := by
  refine .bind (.get ?_)
  split
  next a ha =>
    obtain ⟨hb, htag, htext⟩ := hs.toInterned.text? ha
    exact .pure ⟨.refl hs _, ⟨hb, by rw [htag]; decide⟩, hb, htag, htext⟩
  next hnew =>
    refine .bind ((hs.allocate_ensures hroots (by decide) 2).mono ?_ ?_)
    · rintro a k ⟨-, -, f⟩
      exact .bind (.modifyGet (.pure (f.intern hs hnew)))
    · rintro e k (⟨rfl, hn, rfl⟩ | ⟨rfl, hpos, hle, r, hfull⟩)
      · exact absurd hn (by decide)
      · exact ⟨⟨r.grows, .inr ⟨rfl, hpos, hle, hfull⟩⟩, hnew⟩

/-! ## Frames and environments -/

/-- The words of a frame are its values. -/
theorem contents_frame {h : Heap} {roots : List Address} {values : List Nat}
    (hle : values.length + 1 ≤ nodeSize)
    (hvalues : ∀ w ∈ values, h.Live roots w ∧ (h.tag w).isValue = true) :
    Contents h roots (.fresh .frame (values.length + 1)) values := by
  have hsize := toNat_size hle .frame
  exact contents_children hsize hle rfl (congrArg (Prod.mk 1) hsize) Tag.noConfusion hvalues

/-- The words of an environment are its frames. -/
theorem contents_environment {h : Heap} {roots : List Address} {frames : List Nat}
    (hle : frames.length + 1 ≤ nodeSize)
    (hframes : ∀ w ∈ frames, h.Live roots w ∧ h.tag w = .frame) :
    Contents h roots (.fresh .environment (frames.length + 1)) frames := by
  have hsize := toNat_size hle .environment
  exact contents_children hsize hle rfl (congrArg (Prod.mk 1) hsize) Tag.noConfusion hframes

theorem Intact.live_unassigned {h : Heap} (hi : h.Intact) {roots : List Address} :
    h.Live roots unassigned ∧ (h.tag unassigned).isValue = true := by
  have hle := hi.constants_le
  refine ⟨.permanent hi (addressOf_mod 3) ?_, ?_⟩
  · exact Nat.lt_of_lt_of_le (by decide) hle
  · rw [hi.tag_unassigned]
    rfl

/-- A fresh frame has unassigned variables. -/
theorem Fresh.frame {h k : Heap} (hs : h.Sound) {roots : List Address} {a slots : Nat}
    (f : Fresh h k roots a .frame (slots + 1)) (hle : slots + 1 ≤ nodeSize) :
    Made h k roots a (.fresh .frame (slots + 1)) (.replicate slots unassigned) := by
  have hlen : (List.replicate slots unassigned).length = slots := List.length_replicate
  refine f.made (by decide) (by decide) (.refl k a) ⟨f.header, fun i w hw => ?_⟩ rfl ?_
  · have hi := (List.getElem?_eq_some_iff.1 hw).1
    rw [hlen] at hi
    rw [List.getElem?_replicate, if_pos hi] at hw
    rw [f.filled (i + 1) (by omega) (by omega)]
    exact Option.some.inj hw
  · have hcontents : Contents h roots (.fresh .frame
        ((List.replicate slots unassigned).length + 1)) (.replicate slots unassigned) :=
      contents_frame (hlen.symm ▸ hle) fun w hw =>
        List.eq_of_mem_replicate hw ▸ hs.live_unassigned
    rw [hlen] at hcontents
    exact hcontents

theorem Sound.newFrame_ensures {h : Heap} (hs : h.Sound) {roots : Roots}
    (hroots : ∀ a ∈ roots.get, h.InUse a) (slots : Nat) :
    Ensures (newFrame slots roots) h
      (fun a k => Made h k roots.get a (.fresh .frame (slots + 1)) (.replicate slots unassigned))
      (fun e k => Refused h k roots.get (slots + 1) e) := by
  refine (hs.allocate_ensures hroots (by decide) (slots + 1)).mono ?_ ?_
  · rintro a k ⟨-, hle, f⟩
    exact f.frame hs hle
  · rintro e k (⟨rfl, hn, rfl⟩ | ⟨rfl, hpos, hle, r, hfull⟩)
    · exact ⟨.refl hs _, .inl ⟨rfl, by omega⟩⟩
    · exact ⟨r.grows, .inr ⟨rfl, hpos, hle, hfull⟩⟩

/-- The frames of an environment, outermost first. -/
def framesOf (h : Heap) (environment : Address) : List Address :=
  (List.range (h.frameCount environment)).map fun i => h.word environment (i + 1)

theorem length_framesOf (h : Heap) (environment : Address) :
    (h.framesOf environment).length = h.frameCount environment := by
  rw [framesOf, List.length_map, List.length_range]

theorem getElem?_framesOf {h : Heap} {environment : Address} {i : Nat}
    (hi : i < h.frameCount environment) :
    (h.framesOf environment)[i]? = some (h.word environment (i + 1)) := by
  rw [framesOf, List.getElem?_map, List.getElem?_range hi, Option.map_some]

theorem childRange_environment {h : Heap} {a : Address} (htag : h.tag a = .environment) :
    (h.header a).childRange = (1, h.size a) :=
  childRange_of_tag htag

/-- The frames of an environment that is live are live frames. -/
theorem Sound.live_framesOf {h : Heap} (hs : h.Sound) {roots : List Address}
    (hroots : ∀ a ∈ roots, h.InUse a) {environment : Nat} (hlive : h.Live roots environment)
    (htag : h.tag environment = .environment) :
    ∀ w ∈ h.framesOf environment, h.Live roots w ∧ h.tag w = .frame := by
  intro w hw
  obtain ⟨i, hi, rfl⟩ := List.mem_map.1 hw
  have hlt : i < h.size environment - 1 := List.mem_range.1 hi
  have hin := hs.inUse_of_live hroots hlive
  have hsound := hs.typed environment hin
  have hrange := childRange_environment htag
  have hchild := hsound.child (i + 1) (by rw [hrange]; exact Nat.le_add_left ..)
    (by rw [hrange]; exact Nat.add_lt_of_lt_sub hlt)
  rcases hchild with ⟨hchannel, -⟩ | ⟨hframe, hadmits⟩
  · rw [htag] at hchannel
    cases hchannel
  · rw [htag] at hadmits
    refine ⟨.child hlive ?_, hadmits⟩
    refine mem_children_of_inUse hs.toIntact hsound hin.toIsBlock ?_ ?_ hframe
    · rw [hrange]
      exact Nat.le_add_left ..
    · rw [hrange]
      exact Nat.add_lt_of_lt_sub hlt

/-- Some frames are copied into a node and a frame is added. -/
theorem writes_extended {h : Heap} {environment a : Address} {n : Nat} (ha : h.IsBlock a)
    (hle : n + 2 ≤ nodeSize) (frame : Address) :
    Writes h ((h.copyWords environment a 1 n).setWord a (n + 1) frame) a := by
  have first : Writes h (h.copyWords environment a 1 n) a := writes_copyWords _ ha (by omega)
  exact first.trans (writes_setWord (first.isBlock.2 ha) (by omega) frame)

theorem Sound.extend_ensures {h : Heap} (hs : h.Sound) {roots : Roots}
    (hroots : ∀ a ∈ roots.get, h.InUse a) {environment frame : Nat}
    (hlive : h.Live roots.get environment) (htag : h.tag environment = .environment)
    (hframe : h.Live roots.get frame) (hftag : h.tag frame = .frame) :
    Ensures (extend environment frame roots) h
      (fun a k => Made h k roots.get a (.fresh .environment (h.frameCount environment + 2))
        (h.framesOf environment ++ [frame]))
      (fun e k => Refused h k roots.get (h.frameCount environment + 2) e) := by
  have hlen : (h.framesOf environment ++ [frame]).length = h.frameCount environment + 1 := by
    rw [List.length_append, length_framesOf]
    rfl
  refine .bind (.get ?_)
  refine hs.make_ensures hroots .environment (.fresh .environment (h.frameCount environment + 2))
    (h.framesOf environment ++ [frame]) rfl (by decide) (by decide) ?_ ?_
  · intro _ hle
    have hframes : ∀ w ∈ h.framesOf environment ++ [frame],
        h.Live roots.get w ∧ h.tag w = .frame := by
      intro w hw
      rcases List.mem_append.1 hw with hw | hw
      · exact hs.live_framesOf hroots hlive htag w hw
      · rw [List.mem_singleton.1 hw]
        exact ⟨hframe, hftag⟩
    have hcontents := contents_environment (hlen.symm ▸ hle) hframes
    rw [hlen] at hcontents
    exact hcontents
  · intro a k f hle
    have hne : environment ≠ a := by
      rintro rfl
      exact f.not_live hlive
    have henv := f.live environment hlive
    have first : Writes k (k.copyWords environment a 1 (h.frameCount environment)) a :=
      writes_copyWords _ f.isBlock (by omega)
    have hb := first.isBlock.2 f.isBlock
    refine ⟨writes_extended f.isBlock hle frame, ?_, ?_⟩
    · rw [header_setWord hb hb (by omega) (by omega), Heap.header,
        word_copyWords_block _ henv.toIsBlock f.isBlock f.isBlock hne (by omega) (by omega),
        if_neg (by omega)]
      exact f.header
    · intro i w hw
      have hi := (List.getElem?_eq_some_iff.1 hw).1
      rw [hlen] at hi
      rw [word_setWord_block hb hb (by omega) (by omega)]
      by_cases hlast : i = h.frameCount environment
      · rw [if_pos ⟨rfl, by omega⟩]
        rw [hlast, List.getElem?_append_right (Nat.le_of_eq (length_framesOf ..)),
          length_framesOf,
          Nat.sub_self] at hw
        exact Option.some.inj hw
      · have hlt : i < h.frameCount environment := by omega
        rw [if_neg (by omega),
          word_copyWords_block _ henv.toIsBlock f.isBlock f.isBlock hne (by omega) (by omega),
          if_pos ⟨rfl, by omega, by omega⟩,
          (f.node environment hlive).word (i + 1) (by omega) (by omega)]
        rw [List.getElem?_append_left (by rw [length_framesOf]; exact hlt),
          getElem?_framesOf hlt] at hw
        exact Option.some.inj hw

/-- The same environment has the same frames. -/
theorem SameNode.framesOf {h k : Heap} {environment : Address} (same : SameNode h k environment)
    (hle : h.size environment ≤ nodeSize) :
    k.frameCount environment = h.frameCount environment ∧
      k.framesOf environment = h.framesOf environment := by
  have hcount : k.frameCount environment = h.frameCount environment := by
    rw [frameCount, frameCount, same.size]
  refine ⟨hcount, ?_⟩
  rw [Heap.framesOf, Heap.framesOf, hcount]
  refine List.map_congr_left fun i hi => ?_
  have hlt : i < h.size environment - 1 := List.mem_range.1 hi
  exact same.word (i + 1) (by omega) (by omega)

/-- An environment that is kept has the same frames. -/
theorem Keeps.framesOf {h k : Heap} {nodes : Address → Prop} (keeps : Keeps h k nodes)
    {environment : Address} (ha : nodes environment) (hle : h.size environment ≤ nodeSize) :
    k.frameCount environment = h.frameCount environment ∧
      k.framesOf environment = h.framesOf environment :=
  (keeps.node environment ha).framesOf hle

/-! ## Scopes and calls -/

/-- An environment with one frame more than another one, and the frame. -/
structure MadeEnvironment (h k : Heap) (roots : List Address) (environment : Address)
    (values : List Nat) (frame inside : Nat) : Prop extends Grows h k roots where
  /-- The frame. -/
  newFrame : New h k roots frame (.fresh .frame (values.length + 1)) values
  /-- The environment. -/
  newInside : New h k roots inside (.fresh .environment (h.frameCount environment + 2))
    (h.framesOf environment ++ [frame])

/-- The frames of the new environment are those of the old one and the new frame. -/
theorem New.framesOf {h k : Heap} {roots : List Address} {environment : Address}
    {frame inside : Nat} (new : New h k roots inside
      (.fresh .environment (h.frameCount environment + 2)) (h.framesOf environment ++ [frame])) :
    k.framesOf inside = h.framesOf environment ++ [frame] := by
  obtain ⟨hheader, hwords⟩ := new.toHolds
  have hfits := new.fits
  rw [List.length_append, length_framesOf, List.length_singleton] at hfits
  have hcount : k.frameCount inside = h.frameCount environment + 1 := by
    rw [frameCount, Heap.size, hheader, toNat_size hfits]
    rfl
  refine List.ext_getElem? fun i => ?_
  by_cases hi : i < k.frameCount inside
  · have hlt : i < (h.framesOf environment ++ [frame]).length := by
      rw [List.length_append, length_framesOf, List.length_singleton, ← hcount]
      exact hi
    rw [getElem?_framesOf hi, List.getElem?_eq_getElem hlt,
      hwords i _ (List.getElem?_eq_getElem hlt)]
  · rw [List.getElem?_eq_none (by rw [length_framesOf]; exact Nat.not_lt.1 hi),
      List.getElem?_eq_none]
    rw [List.length_append, length_framesOf, List.length_singleton, ← hcount]
    exact Nat.not_lt.1 hi

theorem MadeEnvironment.framesOf {h k : Heap} {roots : List Address} {environment : Address}
    {values : List Nat} {frame inside : Nat}
    (made : MadeEnvironment h k roots environment values frame inside) :
    k.framesOf inside = h.framesOf environment ++ [frame] :=
  made.newInside.framesOf

/-- What was made in the presence of a node that is held was made together with it. -/
theorem MadeEnvironment.unhold {h k l : Heap} (hs : h.Sound) {roots : List Address}
    (hroots : ∀ a ∈ roots, h.InUse a) {environment : Nat} (hlive : h.Live roots environment)
    {values : List Nat} {block frame inside : Nat} {header : Header} {ws : List Nat}
    (made : Made h k roots block header ws)
    (new : MadeEnvironment (k.held block) l roots environment values frame inside) :
    New h (l.withBuilding k.building) roots block header ws ∧
      MadeEnvironment h (l.withBuilding k.building) roots environment values frame inside := by
  have hcount : (k.held block).frameCount environment = h.frameCount environment ∧
      (k.held block).framesOf environment = h.framesOf environment :=
    made.toKeeps.framesOf hlive (hs.typed _ (hs.inUse_of_live hroots hlive)).le
  have hinside := new.newInside
  rw [hcount.1, hcount.2] at hinside
  exact ⟨made.toNew.of_keeps new.toGrows.keeps_held .self_held,
    made.toGrows.trans hs hroots new.toGrows.unhold,
    .trans made.toGrows hs hroots new.newFrame.unhold,
    .trans made.toGrows hs hroots hinside.unhold⟩

theorem Failed.unhold {h k l : Heap} (hs : h.Sound) {roots : List Address}
    (hroots : ∀ a ∈ roots, h.InUse a) {block : Nat} {header : Header} {ws : List Nat}
    (made : Made h k roots block header ws) {sizes : List Nat} {e : Fault}
    (failed : Failed (k.held block) l roots sizes e) :
    Failed h (l.withBuilding k.building) roots sizes e :=
  ⟨made.toGrows.trans hs hroots failed.toGrows.unhold, failed.cause⟩

/-- A frame that was just made is held while it is put into an environment. -/
theorem Sound.extend_held_ensures {h k : Heap} (hs : h.Sound) {roots : Roots}
    (hroots : ∀ a ∈ roots.get, h.InUse a) {environment frame : Nat}
    (hlive : h.Live roots.get environment) (htag : h.tag environment = .environment)
    {values : List Nat}
    (made : Made h k roots.get frame (.fresh .frame (values.length + 1)) values) :
    Ensures (holding frame (extend environment frame roots)) k
      (fun inside l => MadeEnvironment h l roots.get environment values frame inside)
      (fun e l => Failed h l roots.get [h.frameCount environment + 2] e) := by
  have hlive' := made.toGrows.live hs hroots hlive
  have htag' : k.tag environment = .environment := (made.toKeeps.tag hlive).trans htag
  have hroots' : ∀ a ∈ roots.get, (k.held frame).InUse a :=
    fun a ha => (made.toGrows.inUse_root hroots ha).held
  have hcount : (k.held frame).frameCount environment = h.frameCount environment ∧
      (k.held frame).framesOf environment = h.framesOf environment :=
    made.toKeeps.framesOf hlive (hs.typed _ (hs.inUse_of_live hroots hlive)).le
  refine holding_ensures (((made.sound.held made.toInUse).extend_ensures hroots' hlive'.held htag'
    .self_held made.toHolds.tag).mono ?_ ?_)
  · intro inside l new
    rw [hcount.1, hcount.2] at new
    exact ⟨made.toGrows.trans hs hroots new.toGrows.unhold,
      made.toNew.of_keeps new.toGrows.keeps_held .self_held,
      .trans made.toGrows hs hroots new.toNew.unhold⟩
  · intro e l refused
    rw [hcount.1] at refused
    exact (refused.failed (List.mem_singleton.2 rfl)).unhold hs hroots made

/-- The nodes of a scope behind its block frame. -/
theorem Sound.newInside_ensures {h : Heap} (hs : h.Sound) {roots : Roots}
    (hroots : ∀ a ∈ roots.get, h.InUse a) {environment : Nat}
    (hlive : h.Live roots.get environment) (htag : h.tag environment = .environment)
    (slots : Nat) {α : Type} (result : Address → α) :
    Ensures (do
        let frame ← newFrame slots roots
        let inside ← holding frame (extend environment frame roots)
        return result inside) h
      (fun r k => ∃ frame inside, r = result inside ∧
        MadeEnvironment h k roots.get environment (.replicate slots unassigned) frame inside)
      (fun e k => Failed h k roots.get [slots + 1, h.frameCount environment + 2] e) := by
  refine .bind ((hs.newFrame_ensures hroots slots).mono ?_ ?_)
  · intro frame k new
    have hlen : (List.replicate slots unassigned).length = slots := List.length_replicate
    have new' : Made h k roots.get frame
        (.fresh .frame ((List.replicate slots unassigned).length + 1))
        (.replicate slots unassigned) := hlen.symm ▸ new
    refine .bind ((hs.extend_held_ensures hroots hlive htag new').mono ?_ ?_)
    · intro inside l made
      exact .pure ⟨frame, inside, rfl, made⟩
    · intro e l failed
      exact ⟨failed.toGrows, failed.cause.imp_right fun ⟨n, hn, he⟩ =>
        ⟨n, List.mem_cons_of_mem _ hn, he⟩⟩
  · intro e k refused
    exact refused.failed (List.mem_cons_self ..)

/-- The block frame of a scope. -/
def newBlock (environment : Address) : Roots → Action Address :=
  make .blockframe 2 fun a h => h.setWord a 1 environment

theorem newScope_eq (environment : Address) (slots : Nat) (roots : Roots) :
    newScope environment slots roots = (do
      let block ← newBlock environment roots
      holding block do
        let frame ← newFrame slots roots
        let inside ← holding frame (extend environment frame roots)
        return (block, inside)) :=
  make_bind ..

theorem Sound.newBlock_ensures {h : Heap} (hs : h.Sound) {roots : Roots}
    (hroots : ∀ a ∈ roots.get, h.InUse a) {environment : Nat}
    (hlive : h.Live roots.get environment) (htag : h.tag environment = .environment) :
    Ensures (newBlock environment roots) h
      (fun a k => Made h k roots.get a (.fresh .blockframe 2) [environment])
      (fun e k => Refused h k roots.get 2 e) := by
  refine hs.make_ensures hroots .blockframe (.fresh .blockframe 2) [environment] rfl (by decide)
    (by decide) ?_ ?_
  · intro _ hle
    refine contents_children rfl hle rfl rfl (by decide) fun w hw => ?_
    rw [List.mem_singleton.1 hw]
    exact ⟨hlive, htag⟩
  · intro a k f hle
    rw [← f.header]
    have hholds : Holds (k.setWords a 1 [environment]) a _ _ := holds_setWords f.isBlock hle
    exact ⟨writes_setWords [environment] f.isBlock hle, hholds⟩

/-- A node of two words that could not be made failed for want of a node. -/
theorem Refused.exhausted {h k : Heap} {roots : List Address} {e : Fault}
    (refused : Refused h k roots 2 e) : e = .heapExhausted := by
  rcases refused.cause with ⟨-, hfits⟩ | ⟨he, -⟩
  · exact absurd (by decide) hfits
  · exact he

theorem Sound.newScope_ensures {h : Heap} (hs : h.Sound) {roots : Roots}
    (hroots : ∀ a ∈ roots.get, h.InUse a) {environment : Nat}
    (hlive : h.Live roots.get environment) (htag : h.tag environment = .environment)
    (slots : Nat) :
    Ensures (newScope environment slots roots) h
      (fun r k => New h k roots.get r.1 (.fresh .blockframe 2) [environment] ∧
        ∃ frame, MadeEnvironment h k roots.get environment (.replicate slots unassigned) frame r.2)
      (fun e k => Failed h k roots.get [slots + 1, h.frameCount environment + 2] e) := by
  rw [newScope_eq]
  refine .bind ((hs.newBlock_ensures hroots hlive htag).mono ?_ ?_)
  · intro block k made
    have hroots' : ∀ a ∈ roots.get, (k.held block).InUse a :=
      fun a ha => (made.toGrows.inUse_root hroots ha).held
    have hcount : (k.held block).frameCount environment = h.frameCount environment :=
      (made.toKeeps.framesOf hlive (hs.typed _ (hs.inUse_of_live hroots hlive)).le).1
    refine holding_ensures (((made.sound.held made.toInUse).newInside_ensures hroots'
      (made.toGrows.live hs hroots hlive).held ((made.toKeeps.tag hlive).trans htag) slots
      (Prod.mk block)).mono ?_ ?_)
    · rintro r l ⟨frame, inside, rfl, new⟩
      exact ⟨(new.unhold hs hroots hlive made).1, frame, (new.unhold hs hroots hlive made).2⟩
    · intro e l failed
      rw [hcount] at failed
      exact failed.unhold hs hroots made
  · exact fun e k refused => ⟨refused.toGrows, .inl refused.exhausted⟩

/-- The frame of the arguments of a call. -/
def newArgumentFrame (arguments : List Address) : Roots → Action Address :=
  make .frame (arguments.length + 1) fun a h => h.setWords a 1 arguments

theorem newArguments_eq (captured : Address) (arguments : List Address) (roots : Roots) :
    newArguments captured arguments roots = (do
      let frame ← newArgumentFrame arguments roots
      holding frame (extend captured frame roots)) := by
  unfold newArguments newFrame newArgumentFrame
  exact make_bind ..

theorem Sound.newArgumentFrame_ensures {h : Heap} (hs : h.Sound) {roots : Roots}
    (hroots : ∀ a ∈ roots.get, h.InUse a) {arguments : List Nat}
    (harguments : ∀ w ∈ arguments, h.Live roots.get w ∧ (h.tag w).isValue = true) :
    Ensures (newArgumentFrame arguments roots) h
      (fun a k => Made h k roots.get a (.fresh .frame (arguments.length + 1)) arguments)
      (fun e k => Refused h k roots.get (arguments.length + 1) e) := by
  refine hs.make_ensures hroots .frame (.fresh .frame (arguments.length + 1)) arguments rfl
    (by decide) (by decide) ?_ ?_
  · intro _ hle
    exact contents_frame hle harguments
  · intro a k f hle
    rw [← f.header]
    rw [Nat.add_comm] at hle
    exact ⟨writes_setWords arguments f.isBlock hle, holds_setWords f.isBlock hle⟩

theorem Sound.newArguments_ensures {h : Heap} (hs : h.Sound) {roots : Roots}
    (hroots : ∀ a ∈ roots.get, h.InUse a) {captured : Nat}
    (hlive : h.Live roots.get captured) (htag : h.tag captured = .environment)
    {arguments : List Nat}
    (harguments : ∀ w ∈ arguments, h.Live roots.get w ∧ (h.tag w).isValue = true) :
    Ensures (newArguments captured arguments roots) h
      (fun inside k => ∃ frame,
        MadeEnvironment h k roots.get captured arguments frame inside)
      (fun e k => Failed h k roots.get [arguments.length + 1, h.frameCount captured + 2] e) := by
  rw [newArguments_eq]
  refine .bind ((hs.newArgumentFrame_ensures hroots harguments).mono ?_ ?_)
  · intro frame k made
    refine (hs.extend_held_ensures hroots hlive htag made).mono ?_ ?_
    · exact fun inside l new => ⟨frame, new⟩
    · exact fun e l failed => ⟨failed.toGrows, failed.cause.imp_right fun ⟨n, hn, he⟩ =>
        ⟨n, List.mem_cons_of_mem _ hn, he⟩⟩
  · exact fun e k refused => refused.failed (List.mem_cons_self ..)

/-- The header of a call frame. -/
def callHeader (resume : Nat) : Header :=
  { Header.fresh .callframe 2 with payload := .ofNat resume }

/-- The call frame of a call. -/
def newCallFrame (resume : Nat) (environment : Address) : Roots → Action Address :=
  make .callframe 2 fun a h => (h.setPayload a (.ofNat resume)).setWord a 1 environment

theorem newCall_eq (resume : Nat) (environment captured : Address) (arguments : List Address)
    (roots : Roots) :
    newCall resume environment captured arguments roots = (do
      let call ← newCallFrame resume environment roots
      holding call do
        let inside ← newArguments captured arguments roots
        return (call, inside)) :=
  make_bind ..

theorem Sound.newCallFrame_ensures {h : Heap} (hs : h.Sound) {roots : Roots}
    (hroots : ∀ a ∈ roots.get, h.InUse a) (resume : Nat) {environment : Nat}
    (hlive : h.Live roots.get environment) (htag : h.tag environment = .environment) :
    Ensures (newCallFrame resume environment roots) h
      (fun a k => Made h k roots.get a (callHeader resume) [environment])
      (fun e k => Refused h k roots.get 2 e) := by
  refine hs.make_ensures hroots .callframe (callHeader resume) [environment] rfl (by decide)
    (by decide) ?_ ?_
  · intro _ hle
    refine contents_children rfl hle rfl rfl Tag.noConfusion fun w hw => ?_
    rw [List.mem_singleton.1 hw]
    exact ⟨hlive, htag⟩
  · intro a k f hle
    rw [callHeader, ← f.header]
    exact holds_setPayload_setWords f.isBlock _ [environment] hle

theorem Sound.newCall_ensures {h : Heap} (hs : h.Sound) {roots : Roots}
    (hroots : ∀ a ∈ roots.get, h.InUse a) (resume : Nat) {environment captured : Nat}
    (henv : h.Live roots.get environment) (hetag : h.tag environment = .environment)
    (hlive : h.Live roots.get captured) (htag : h.tag captured = .environment)
    {arguments : List Nat}
    (harguments : ∀ w ∈ arguments, h.Live roots.get w ∧ (h.tag w).isValue = true) :
    Ensures (newCall resume environment captured arguments roots) h
      (fun r k => New h k roots.get r.1 (callHeader resume) [environment] ∧
        ∃ frame, MadeEnvironment h k roots.get captured arguments frame r.2)
      (fun e k => Failed h k roots.get [arguments.length + 1, h.frameCount captured + 2] e) := by
  rw [newCall_eq]
  refine .bind ((hs.newCallFrame_ensures hroots resume henv hetag).mono ?_ ?_)
  · intro call k made
    have hroots' : ∀ a ∈ roots.get, (k.held call).InUse a :=
      fun a ha => (made.toGrows.inUse_root hroots ha).held
    have hcount : (k.held call).frameCount captured = h.frameCount captured :=
      (made.toKeeps.framesOf hlive (hs.typed _ (hs.inUse_of_live hroots hlive)).le).1
    have harguments' : ∀ w ∈ arguments, (k.held call).Live roots.get w ∧
        ((k.held call).tag w).isValue = true := by
      intro w hw
      obtain ⟨hl, hv⟩ := harguments w hw
      refine ⟨(made.toGrows.live hs hroots hl).held, ?_⟩
      rw [show (k.held call).tag w = h.tag w from made.toKeeps.tag hl]
      exact hv
    refine holding_ensures (.bind (((made.sound.held made.toInUse).newArguments_ensures hroots'
      (made.toGrows.live hs hroots hlive).held ((made.toKeeps.tag hlive).trans htag)
      harguments').mono ?_ ?_))
    · rintro inside l ⟨frame, new⟩
      exact .pure ⟨(new.unhold hs hroots hlive made).1, frame,
        (new.unhold hs hroots hlive made).2⟩
    · intro e l failed
      rw [hcount] at failed
      exact failed.unhold hs hroots made
  · exact fun e k refused => ⟨refused.toGrows, .inl refused.exhausted⟩

/-! ## Functions -/

/-- The header of a function. -/
def closureHeader (entry : Nat) : Header :=
  { Header.fresh .closure 3 with payload := .ofNat entry }

/-- A function. -/
def newClosure (arity entry : Nat) (environment : Address) : Roots → Action Address :=
  make .closure 3 fun a h =>
    (h.setPayload a (.ofNat entry)).setWords a 1 [arity, environment]

theorem Sound.newClosure_ensures {h : Heap} (hs : h.Sound) {roots : Roots}
    (hroots : ∀ a ∈ roots.get, h.InUse a) (arity entry : Nat) {environment : Nat}
    (hlive : h.Live roots.get environment) (htag : h.tag environment = .environment) :
    Ensures (newClosure arity entry environment roots) h
      (fun a k => Made h k roots.get a (closureHeader entry) [arity, environment])
      (fun e k => Refused h k roots.get 3 e) := by
  refine hs.make_ensures hroots .closure (closureHeader entry) [arity, environment] rfl (by decide)
    (by decide) ?_ ?_
  · intro _ hle
    refine ⟨rfl, hle, rfl, Nat.le_refl 3, ?_, Tag.noConfusion⟩
    intro i w hlo hhi hw
    obtain rfl : i = 1 := by
      change 2 ≤ i + 1 at hlo
      change i + 1 < 3 at hhi
      omega
    obtain rfl : environment = w := Option.some.inj hw
    exact .inr ⟨hlive, htag⟩
  · intro a k f hle
    rw [closureHeader, ← f.header]
    exact holds_setPayload_setWords f.isBlock _ [arity, environment] hle

/-! ## Channels and wait-groups -/

/-- The header of a new channel. -/
def channelHeader (capacity : Nat) : Header :=
  { Header.fresh .channel (ringStart + max capacity 1) with
    payload := channelPayload (capacity == 0) noKind }

/-- The words of a new channel. -/
def emptyRing (slots : Nat) : List Nat := slots :: 0 :: 0 :: .replicate slots vacant

/-- A channel, without a look at its capacity. -/
def newRing (capacity : Nat) : Roots → Action Address :=
  make .channel (ringStart + max capacity 1) fun a h =>
    (h.setPayload a (channelPayload (capacity == 0) noKind)).setWords a 1
      (emptyRing (max capacity 1))

theorem newChannel_eq (capacity : Nat) (roots : Roots) :
    newChannel capacity roots = (if maxCapacity < capacity then throw (.channelCapacity capacity)
      else newRing capacity roots) := by
  unfold newChannel
  by_cases h : maxCapacity < capacity
  · rw [if_pos h, if_pos h]
    rfl
  · rw [if_neg h, if_neg h]
    rfl

theorem length_emptyRing (slots : Nat) : (emptyRing slots).length = slots + 3 := by
  rw [emptyRing, List.length_cons, List.length_cons, List.length_cons, List.length_replicate]

/-- The words of a channel are those of one node. -/
theorem writes_emptyRing {h : Heap} {a : Address} {slots : Nat} (ha : h.IsBlock a)
    (hle : ringStart + slots ≤ nodeSize) (payload : UInt32) :
    Writes h ((h.setPayload a payload).setWords a 1 (emptyRing slots)) a := by
  have hlen := length_emptyRing slots
  have hstart : ringStart = 4 := rfl
  exact (holds_setPayload_setWords ha payload _ (by omega)).1

theorem Sound.newRing_ensures {h : Heap} (hs : h.Sound) {roots : Roots}
    (hroots : ∀ a ∈ roots.get, h.InUse a) (capacity : Nat) :
    Ensures (newRing capacity roots) h
      (fun a k => Made h k roots.get a (channelHeader capacity) (emptyRing (max capacity 1)))
      (fun e k => Refused h k roots.get (ringStart + max capacity 1) e) := by
  have hlen := length_emptyRing (max capacity 1)
  have hstart : ringStart = 4 := rfl
  refine hs.make_ensures hroots .channel (channelHeader capacity) (emptyRing (max capacity 1)) rfl
    (by decide) (by decide) ?_ ?_
  · intro _ hfits
    have hsize : (channelHeader capacity).size.toNat = ringStart + max capacity 1 :=
      toNat_size hfits .channel
    refine ⟨?_, ?_, rfl, ?_, ?_, fun _ => ?_⟩
    · rw [hsize, hlen]
      omega
    · rw [hlen]
      omega
    · change (channelHeader capacity).size.toNat ≤ _
      rw [hsize, hlen]
      omega
    · intro i w hlo hhi hw
      change 4 ≤ i + 1 at hlo
      obtain ⟨j, rfl⟩ : ∃ j, i = j + 3 := ⟨i - 3, by omega⟩
      have hmem : w ∈ List.replicate (max capacity 1) vacant := List.mem_of_getElem? hw
      exact .inl ⟨rfl, List.eq_of_mem_replicate hmem⟩
    · exact ⟨max capacity 1, 0, 0, _, rfl, List.length_replicate, by omega, by omega⟩
  · intro a k f hfits
    rw [channelHeader, ← f.header]
    refine holds_setPayload_setWords f.isBlock _ (emptyRing (max capacity 1)) ?_
    rw [hlen]
    omega

theorem Sound.newChannel_ensures {h : Heap} (hs : h.Sound) {roots : Roots}
    (hroots : ∀ a ∈ roots.get, h.InUse a) (capacity : Nat) :
    Ensures (newChannel capacity roots) h
      (fun a k => capacity ≤ maxCapacity ∧
        Made h k roots.get a (channelHeader capacity) (emptyRing (max capacity 1)))
      (fun e k => (e = .channelCapacity capacity ∧ maxCapacity < capacity ∧ k = h) ∨
        (capacity ≤ maxCapacity ∧ Refused h k roots.get (ringStart + max capacity 1) e)) := by
  rw [newChannel_eq]
  by_cases hcapacity : maxCapacity < capacity
  · rw [if_pos hcapacity]
    exact .throw (.inl ⟨rfl, hcapacity, rfl⟩)
  · rw [if_neg hcapacity]
    have hle := Nat.not_lt.1 hcapacity
    exact (hs.newRing_ensures hroots capacity).mono (fun a k made => ⟨hle, made⟩)
      fun e k refused => .inr ⟨hle, refused⟩

/-- The node of a wait-group. -/
def newGroupNode (counter : Address) : Roots → Action Address :=
  make .waitGroup 2 fun a h => h.setWord a 1 counter

/-- Writing the words while the counter is still held makes no difference. -/
theorem newWaitGroup_eq (roots : Roots) :
    newWaitGroup roots = (do
      let counter ← newNumber .zero roots
      holding counter (newGroupNode counter roots)) := by
  unfold newWaitGroup
  refine congrArg _ (funext fun counter => ?_)
  funext h
  change EStateM.bind (holding counter (allocate .waitGroup 2 roots)) _ h =
    holding counter (EStateM.bind (allocate .waitGroup 2 roots) _) h
  simp only [EStateM.bind, holding]
  cases allocate .waitGroup 2 roots { h with building := counter :: h.building } with
  | ok a k => rfl
  | error e k => rfl

theorem Sound.newGroupNode_ensures {h : Heap} (hs : h.Sound) {roots : Roots}
    (hroots : ∀ a ∈ roots.get, h.InUse a) {counter : Nat} (hlive : h.Live roots.get counter)
    (htag : h.tag counter = .number) :
    Ensures (newGroupNode counter roots) h
      (fun a k => Made h k roots.get a (.fresh .waitGroup 2) [counter])
      (fun e k => Refused h k roots.get 2 e) := by
  refine hs.make_ensures hroots .waitGroup (.fresh .waitGroup 2) [counter] rfl (by decide)
    (by decide) ?_ ?_
  · intro _ hle
    refine contents_children rfl hle rfl rfl (by decide) fun w hw => ?_
    rw [List.mem_singleton.1 hw]
    exact ⟨hlive, htag⟩
  · intro a k f hle
    rw [← f.header]
    have hholds : Holds (k.setWords a 1 [counter]) a _ _ := holds_setWords f.isBlock hle
    exact ⟨writes_setWords [counter] f.isBlock hle, hholds⟩

theorem Sound.newWaitGroup_ensures {h : Heap} (hs : h.Sound) {roots : Roots}
    (hroots : ∀ a ∈ roots.get, h.InUse a) :
    Ensures (newWaitGroup roots) h
      (fun a k => ∃ counter, New h k roots.get counter (.fresh .number 2)
          [Number.zero.bits.toNat] ∧
        Made h k roots.get a (.fresh .waitGroup 2) [counter])
      (fun e k => Failed h k roots.get [2] e) := by
  rw [newWaitGroup_eq]
  refine .bind ((hs.newNumber_ensures hroots .zero).mono ?_ ?_)
  · intro counter k made
    have hroots' : ∀ a ∈ roots.get, (k.held counter).InUse a :=
      fun a ha => (made.toGrows.inUse_root hroots ha).held
    have hsound := made.sound.held made.toInUse
    refine holding_ensures ((hsound.newGroupNode_ensures hroots' .self_held
      made.toHolds.tag).mono ?_ ?_)
    · intro group l new
      exact ⟨counter, made.toNew.of_keeps new.toGrows.keeps_held .self_held,
        made.toGrows.trans hs hroots new.toGrows.unhold,
        .trans made.toGrows hs hroots new.toNew.unhold⟩
    · intro e l refused
      exact ⟨made.toGrows.trans hs hroots refused.toGrows.unhold, .inl refused.exhausted⟩
  · intro e k refused
    exact refused.failed (List.mem_singleton.2 rfl)

end ChannelMachine.Heap
