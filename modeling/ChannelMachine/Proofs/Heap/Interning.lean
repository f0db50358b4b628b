import ChannelMachine.Proofs.Heap.Allocating

/-!
# Texts

Over the whole life of a heap its texts are exactly those of its string nodes, with one node for each
text (`Interns`), so two texts are the same if their nodes are.  A new text takes the first free node,
and a text that is there already takes none (`Spells`).

The texts of a node depend on a word of it, and a mark in the middle of a node changes such a word
(`loses_text_blotted`).
-/

namespace ChannelMachine.Heap

variable {h k : Heap} {a : Address} {roots : Roots}

/-- The texts of a heap are those of its string nodes. -/
structure Interns (h : Heap) : Prop where
  /-- The node of a text is the string node that has it. -/
  node : ∀ (s : String) (a : Address),
    h.strings[s]? = some a ↔ h.IsBlock a ∧ h.tag a = .string ∧ h.text? a = some s
  /-- Every string node has a text. -/
  text : ∀ a, h.IsBlock a → h.tag a = .string → ∃ s, h.text? a = some s
  /-- String nodes with the same text are the same. -/
  same : ∀ a b, h.IsBlock a → h.tag a = .string → h.IsBlock b → h.tag b = .string →
    (h.text? a = h.text? b ↔ a = b)
  /-- There are as many texts as string nodes. -/
  count : h.stringCount = (List.range h.nodeCount).countP fun i => h.tag (addressOf i) = .string

/-- What a heap gives for a text. -/
structure Spells (h : Heap) (roots : Roots) (text : String)
    (result : EStateM.Result Fault Heap Address) : Prop where
  /-- The node that has the text, if there is one. -/
  found : ∀ a, h.IsBlock a → h.tag a = .string → h.text? a = some text → result = .ok a h
  /-- Otherwise the first free node, which has the text then, or a fault where no node is free. -/
  made : (∀ a, h.IsBlock a → h.tag a = .string → h.text? a ≠ some text) →
    ((h.refill roots).free = noNode ∧ (h.refill roots).strings[text]? = none ∧
      result = .error .heapExhausted (h.refill roots)) ∨
    ∃ i rest k, FreeNodes (h.refill roots) (i :: rest) ∧ FreeNodes k rest ∧
      k.tag (addressOf i) = .string ∧ k.text? (addressOf i) = some text ∧ result = .ok (addressOf i) k

namespace Interned

variable (hi : h.Interned)
include hi

theorem node_iff (s : String) (a : Address) :
    h.strings[s]? = some a ↔ h.IsBlock a ∧ h.tag a = .string ∧ h.text? a = some s :=
  ⟨hi.text?, fun ⟨hb, _, htext⟩ => hi.strings_of_text? hb htext⟩

/-- The texts and the string nodes are in correspondence. -/
theorem stringCount_eq :
    h.stringCount = (List.range h.nodeCount).countP fun i => h.tag (addressOf i) = .string := by
  have hnodes : (h.strings.toList.map Prod.snd).Nodup := by
    refine List.pairwise_map.2 (h.strings.distinct_keys_toList.imp_of_mem fun {p q} hp hq hne heq => hne ?_)
    have hp' := (hi.node_iff p.1 p.2).1 (Std.TreeMap.mem_toList_iff_getElem?_eq_some.1 hp)
    have hq' := (hi.node_iff q.1 q.2).1 (Std.TreeMap.mem_toList_iff_getElem?_eq_some.1 hq)
    rw [heq, hq'.2.2] at hp'
    rw [Option.some.inj hp'.2.2]
    exact Std.ReflCmp.compare_self
  have hindices : ((List.range h.nodeCount).filter fun i => h.tag (addressOf i) = .string).Nodup :=
    List.nodup_range.filter _
  have hblocks : (((List.range h.nodeCount).filter fun i => h.tag (addressOf i) = .string).map
      addressOf).Nodup :=
    List.pairwise_map.2 (hindices.imp fun hne heq => hne (addressOf_inj heq))
  have hperm := (List.perm_ext_iff_of_nodup hnodes hblocks).2 fun a => by
    constructor
    · intro hmem
      obtain ⟨⟨s, b⟩, hb, rfl⟩ := List.mem_map.1 hmem
      obtain ⟨hblock, htag, -⟩ := (hi.node_iff s b).1 (Std.TreeMap.mem_toList_iff_getElem?_eq_some.1 hb)
      obtain ⟨i, hlt, rfl⟩ := hblock.exists_index
      exact List.mem_map.2 ⟨i, List.mem_filter.2 ⟨List.mem_range.2 hlt, decide_eq_true htag⟩, rfl⟩
    · intro hmem
      obtain ⟨i, hin, rfl⟩ := List.mem_map.1 hmem
      obtain ⟨hlt, htag⟩ := List.mem_filter.1 hin
      obtain ⟨s, -, hnode⟩ := hi.text _ (isBlock_addressOf.2 (List.mem_range.1 hlt)) (of_decide_eq_true htag)
      exact List.mem_map.2 ⟨(s, addressOf i), Std.TreeMap.mem_toList_iff_getElem?_eq_some.2 hnode, rfl⟩
  have hlength := hperm.length_eq
  rw [List.length_map, List.length_map, Std.TreeMap.length_toList] at hlength
  rw [stringCount, hlength, List.countP_eq_length_filter]

theorem faithful (_ : h.Whole) : Interns h where
  node := hi.node_iff
  text := by
    intro a hb htag
    obtain ⟨s, -, hnode⟩ := hi.text a hb htag
    exact ⟨s, (hi.text? hnode).2.2⟩
  same := by
    intro a b ha htag hb _
    refine ⟨fun heq => ?_, fun heq => heq ▸ rfl⟩
    obtain ⟨s, -, hnode⟩ := hi.text a ha htag
    have hs : h.text? b = some s := heq ▸ (hi.text? hnode).2.2
    exact Option.some.inj (hnode.symm.trans (hi.strings_of_text? hb hs))
  count := hi.stringCount_eq

end Interned

/-- A string node that was just taken into use takes a text, and it is the only node that is written. -/
theorem FreeNodes.intern {i : Nat} {rest : List Nat} (hl : FreeNodes h rest)
    (hb : h.IsBlock (addressOf i)) (htag : h.tag (addressOf i) = .string) (s : String) :
    FreeNodes (h.intern (addressOf i) s) rest ∧ (h.intern (addressOf i) s).tag (addressOf i) = .string ∧
      (h.intern (addressOf i) s).text? (addressOf i) = some s := by
  have hsize : (h.intern (addressOf i) s).words.size = h.words.size := size_words_setWord h _ 1 _
  have hnodes : (h.intern (addressOf i) s).nodeCount = h.nodeCount := congrArg (· / nodeSize) hsize
  refine ⟨hl.congr rfl rfl rfl hnodes fun j hj => ?_, text?_intern hb htag⟩
  refine (same_intern hb (isBlock_addressOf.2 (hl.chain.lt j hj)) fun heq => ?_).header
  have hfree := hl.tag j hj
  rw [heq, htag] at hfree
  cases hfree

theorem newString_eq (text : String) (roots : Roots) (h : Heap) :
    newString text roots h = match h.strings[text]? with
      | some a => .ok a h
      | none => match allocate .string 2 roots h with
        | .ok a k => .ok a (k.intern a text)
        | .error e k => .error e k := by
  have hget : (get : Action Heap) h = .ok h h := rfl
  unfold newString
  simp only [bind, EStateM.bind, hget]
  cases h.strings[text]? with
  | some a => rfl
  | none =>
    simp only [EStateM.bind]
    cases allocate .string 2 roots h <;> rfl

theorem Formed.spells (hf : h.Formed) (hroots : ∀ a ∈ roots.get, h.IsBlock a) (text : String) :
    Spells h roots text (newString text roots h) where
  found := by
    intro a hb htag htext
    rw [newString_eq, (hf.node_iff text a).2 ⟨hb, htag, htext⟩]
  made := by
    intro hnone
    have hnew : h.strings[text]? = none := by
      refine Option.eq_none_iff_forall_ne_some.2 fun a ha => ?_
      obtain ⟨hb, htag, htext⟩ := hf.text? ha
      exact hnone a hb htag htext
    have r := hf.stays_refill hroots
    have hfits : ¬ (2 = 0 ∨ nodeSize < 2) := by decide
    rw [newString_eq, hnew]
    unfold allocate
    simp only [if_neg hfits]
    by_cases hfree : (h.refill roots).free = noNode
    · simp only [if_pos hfree]
      refine .inl ⟨hfree, r.strings text hnew, ?_⟩
      trivial
    · simp only [if_neg hfree]
      have renewed := r.formed.renewed hfree .string (n := 2) (by decide) (by decide)
      obtain ⟨rest, hlist, hrest⟩ := r.formed.renew_free hfree .string (n := 2) (by decide) (by decide)
      obtain ⟨hleft, htag, htext⟩ := hrest.intern renewed.isBlock
        (congrArg Header.tag renewed.header) text
      exact .inr ⟨_, rest, _, hlist, hleft, htag, htext, rfl⟩

/-- The texts of all heaps that operations lead to are exactly those of their string nodes. -/
theorem Produced.interns (produced : Produced h) : Interns h ∧ ∀ (text : String) (roots : Roots),
    (∀ a ∈ roots.get, h.IsBlock a) → Spells h roots text (newString text roots h) :=
  ⟨produced.formed.toInterned.faithful produced.formed.toWhole, fun text _ hroots =>
    produced.formed.spells hroots text⟩

/-- A heap with two texts after a collection that keeps the second one. -/
def spelled : Heap :=
  let first := leaves (newString "lost" noRoots) ten
  let second := leaves (newString "kept" noRoots) first
  second.collect [60]

theorem produced_spelled : Produced spelled := by
  have hnone : ∀ {h : Heap}, ∀ a ∈ noRoots.get, h.IsBlock a := fun a ha => nomatch ha
  have hten : create 100 = .ok ten := create_eq (by decide +kernel)
  refine .operate (.operate (.operate (.create hten) (.newString "lost" noRoots hnone))
    (.newString "kept" noRoots hnone)) (.collect [60] fun a ha => ?_)
  obtain rfl := List.mem_singleton.1 ha
  exact ⟨by decide, by decide +kernel⟩

/-- The text that is left keeps its node, and the other one takes a node anew. -/
theorem interns_spelled : Produced spelled ∧ (∀ a ∈ noRoots.get, spelled.IsBlock a) ∧ Interns spelled ∧
    Spells spelled noRoots "lost" (newString "lost" noRoots spelled) ∧ spelled.stringCount = 1 ∧
    newString "kept" noRoots spelled = .ok 60 spelled ∧
    ∃ k, newString "lost" noRoots spelled = .ok 50 k := by
  have hnone : ∀ a ∈ noRoots.get, spelled.IsBlock a := fun a ha => nomatch ha
  obtain ⟨interns, spells⟩ := produced_spelled.interns
  obtain ⟨hsize, htag, htext, hcount⟩ : spelled.words.size = 100 ∧ spelled.tag 60 = .string ∧
      spelled.text? 60 = some "kept" ∧ spelled.stringCount = 1 := by
    decide +kernel
  exact ⟨produced_spelled, hnone, interns, spells "lost" noRoots hnone, hcount,
    (spells "kept" noRoots hnone).found 60 ⟨by decide, by rw [hsize]; decide⟩ htag htext,
    exists_eq_ok (by decide +kernel)⟩

/-- A heap with a text at fifty, and a node at sixty that is too small for its child. -/
def blotted : Heap :=
  let first := leaves (newString "hi" noRoots) seven
  let second := leaves (newNumber ⟨51⟩ noRoots) first
  leaves (allocate .blockframe 1 ⟨fun _ => [50]⟩) (second.collect [50])

/-- A collection that keeps both leaves the first without its text, and the text names it still. -/
theorem loses_text_blotted : blotted.text? 50 = some "hi" ∧ blotted.Live [50, 60] 50 ∧
    (blotted.collect [50, 60]).tag 50 = .string ∧ (blotted.collect [50, 60]).text? 50 = none ∧
    (blotted.collect [50, 60]).strings["hi"]? = some 50 := by
  have h : blotted.text? 50 = some "hi" ∧ (blotted.collect [50, 60]).tag 50 = .string ∧
      (blotted.collect [50, 60]).text? 50 = none ∧
      (blotted.collect [50, 60]).strings["hi"]? = some 50 := by
    decide +kernel
  exact ⟨h.1, .root (List.mem_cons_self ..), h.2⟩

end ChannelMachine.Heap
