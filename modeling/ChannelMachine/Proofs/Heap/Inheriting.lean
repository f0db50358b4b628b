import ChannelMachine.Proofs.Heap.Updating

/-!
# What heaps inherit

A collection frees nodes, and an allocation takes a free node into use, but no node that stays in
use is changed by either.  `Inherits h k new` says so of a heap `k` that came out of `h`: apart from
the nodes that are `new`, what is in use in `k` was in use in `h`, has the same words, and has no new
node among its children.  Unlike `Grows` this also tells of nodes that nobody can reach any more.

Threads meet at channels and wait-groups, and functions and builtins are called.  `AddsPlain` says that
no new node is one of these, and which values the variables of new frames hold.  Most instructions make
plain nodes only.
-/

namespace ChannelMachine

/-- Whether threads meet at nodes of this kind. -/
def Tag.isMeeting : Tag → Bool
  | .channel | .waitGroup => Bool.true
  | _ => Bool.false

/-- Whether nodes of this kind are neither met at nor called. -/
def Tag.isPlain : Tag → Bool
  | .channel | .waitGroup | .closure | .builtin => Bool.false
  | _ => Bool.true

theorem Tag.isMeeting_of_isPlain {t : Tag} (ht : t.isPlain = Bool.true) :
    t.isMeeting = Bool.false := by
  cases t <;> first | rfl | cases ht

namespace Heap

/-- A heap whose nodes are those of another one, but for some that are new. -/
structure Inherits (h k : Heap) (new : Address → Prop) : Prop where
  /-- The other nodes in use were in use, and are the same. -/
  old : ∀ a, k.InUse a → ¬ new a → h.InUse a ∧ SameNode h k a
  /-- No new node is a child of another one. -/
  child : ∀ a, k.InUse a → ¬ new a → ∀ i, (k.header a).childRange.1 ≤ i →
    i < (k.header a).childRange.2 → ¬ new (k.word a i)

/-- A node that is neither met at nor called, and if it is a frame, its variables hold given values. -/
structure Plain (h : Heap) (values : Address → Prop) (a : Address) : Prop where
  /-- Its kind. -/
  kind : (h.tag a).isPlain = true
  /-- Its variables. -/
  content : h.tag a = .frame → ∀ i, 1 ≤ i → i < h.size a → values (h.word a i)

/-- The new nodes are plain ones. -/
def AddsPlain (h k : Heap) (values : Address → Prop) : Prop :=
  ∃ new, Inherits h k new ∧ ∀ a, k.InUse a → new a → k.Plain values a

namespace Plain

variable {h k : Heap} {values : Address → Prop} {a : Address}

theorem of_tag {t : Tag} (htag : h.tag a = t) (ht : t.isPlain = true) (hne : t ≠ .frame) :
    h.Plain values a :=
  ⟨htag ▸ ht, fun hframe => absurd (htag.symm.trans hframe) hne⟩

theorem of_same (plain : h.Plain values a) (same : SameNode h k a) (hle : k.size a ≤ nodeSize) :
    k.Plain values a where
  kind := same.tag ▸ plain.kind
  content := by
    intro hframe i hpos hlt
    rw [same.word i hpos (Nat.lt_of_lt_of_le hlt hle)]
    exact plain.content (same.tag.symm.trans hframe) i hpos (same.size ▸ hlt)

/-- A frame that holds given values. -/
theorem of_holds {ws : List Nat} (holds : Holds h a (.fresh .frame (ws.length + 1)) ws)
    (hle : ws.length + 1 ≤ nodeSize) (hvalues : ∀ w ∈ ws, values w) : h.Plain values a where
  kind := by
    rw [holds.tag]
    rfl
  content := by
    intro _ i hpos hlt
    rw [Heap.size, holds.header] at hlt
    have hlt' : i < ws.length + 1 := by rwa [← toNat_size hle]
    obtain ⟨j, rfl⟩ : ∃ j, i = j + 1 := ⟨i - 1, by omega⟩
    have hj : j < ws.length := by omega
    rw [holds.word j _ (List.getElem?_eq_getElem hj)]
    exact hvalues _ (List.getElem_mem hj)

end Plain

/-! ## Heaps in a row -/

namespace Inherits

variable {h k l : Heap} {new newer : Address → Prop}

theorem refl (h : Heap) : Inherits h h fun _ => False :=
  ⟨fun a ha _ => ⟨ha, .refl h a⟩, fun _ _ _ _ _ _ hnew => hnew⟩

theorem trans (first : Inherits h k new) (second : Inherits k l newer) (hl : l.Sound) :
    Inherits h l fun a => new a ∨ newer a where
  old := by
    intro a ha hnot
    obtain ⟨hnew, hnewer⟩ := not_or.1 hnot
    obtain ⟨hin, same⟩ := second.old a ha hnewer
    obtain ⟨hin', same'⟩ := first.old a hin hnew
    exact ⟨hin', same'.trans same⟩
  child := by
    intro a ha hnot i hlo hhi
    obtain ⟨hnew, hnewer⟩ := not_or.1 hnot
    obtain ⟨hin, same⟩ := second.old a ha hnewer
    have hpos := Header.one_le_childRange_fst (Nat.lt_of_le_of_lt hlo hhi)
    have hlt := Nat.lt_of_lt_of_le hhi (hl.typed a ha).range
    have hfirst := first.child a hin hnew i (same.header ▸ hlo) (same.header ▸ hhi)
    rw [← same.word i (Nat.le_trans hpos hlo) hlt] at hfirst
    exact not_or.2 ⟨hfirst, second.child a ha hnewer i hlo hhi⟩

/-- Only the arena counts. -/
theorem congr {h' k' : Heap} (inherits : Inherits h k new) (left : SameArena h h')
    (right : SameArena k k') : Inherits h' k' new where
  old := by
    intro a ha hnew
    obtain ⟨hin, same⟩ := inherits.old a (right.inUse.1 ha) hnew
    exact ⟨left.inUse.2 hin, ((left.same a).symm.trans same).trans (right.same a)⟩
  child := by
    intro a ha hnew i hlo hhi
    rw [right.header] at hlo hhi
    rw [right.word]
    exact inherits.child a (right.inUse.1 ha) hnew i hlo hhi

/-- A new node may be written. -/
theorem written (inherits : Inherits h k new) {a : Address} (hsize : l.words.size = k.words.size)
    (hnew : new a) (hsame : ∀ b, k.IsBlock b → b ≠ a → SameNode k l b)
    (hrange : ∀ b, k.InUse b → b ≠ a → (k.header b).childRange.2 ≤ nodeSize) :
    Inherits h l new := by
  have hback : ∀ b, l.InUse b → ¬ new b → b ≠ a ∧ k.InUse b ∧ SameNode k l b := by
    intro b hb hnot
    have hne : b ≠ a := fun heq => hnot (heq ▸ hnew)
    have same := hsame b ((IsBlock.congr hsize).1 hb.toIsBlock) hne
    exact ⟨hne, (InUse.congr hsize same.tag).1 hb, same⟩
  constructor
  · intro b hb hnot
    obtain ⟨-, hin, same⟩ := hback b hb hnot
    obtain ⟨hin', same'⟩ := inherits.old b hin hnot
    exact ⟨hin', same'.trans same⟩
  · intro b hb hnot i hlo hhi
    obtain ⟨hne, hin, same⟩ := hback b hb hnot
    rw [same.header] at hlo hhi
    have hpos := Header.one_le_childRange_fst (Nat.lt_of_le_of_lt hlo hhi)
    rw [same.word i (Nat.le_trans hpos hlo) (Nat.lt_of_lt_of_le hhi (hrange b hin hne))]
    exact inherits.child b hin hnot i hlo hhi

/-- A single new node that is plain. -/
theorem addsPlain {values : Address → Prop} {a : Address} (inherits : Inherits h k (· = a))
    (hplain : k.Plain values a) : AddsPlain h k values :=
  ⟨_, inherits, fun _ _ heq => heq ▸ hplain⟩

end Inherits

namespace AddsPlain

variable {h k l : Heap} {values : Address → Prop}

theorem refl (h : Heap) : AddsPlain h h values := ⟨_, .refl h, fun _ _ hnew => hnew.elim⟩

theorem trans (first : AddsPlain h k values) (second : AddsPlain k l values) (hl : l.Sound) :
    AddsPlain h l values := by
  obtain ⟨new, inherits, hplain⟩ := first
  obtain ⟨newer, inherits', hplain'⟩ := second
  refine ⟨_, inherits.trans inherits' hl, fun a ha hor => ?_⟩
  by_cases hnewer : newer a
  · exact hplain' a ha hnewer
  · obtain ⟨hin, same⟩ := inherits'.old a ha hnewer
    exact (hplain a hin (hor.resolve_right hnewer)).of_same same (hl.typed a ha).le

theorem congr {h' k' : Heap} (adds : AddsPlain h k values) (left : SameArena h h')
    (right : SameArena k k') : AddsPlain h' k' values := by
  obtain ⟨new, inherits, hplain⟩ := adds
  refine ⟨new, inherits.congr left right, fun a ha hnew => ?_⟩
  have plain := hplain a (right.inUse.1 ha) hnew
  refine ⟨right.tag a ▸ plain.kind, fun hframe i hpos hlt => ?_⟩
  rw [right.tag] at hframe
  rw [(right.same a).size] at hlt
  rw [right.word]
  exact plain.content hframe i hpos hlt

end AddsPlain

/-! ## Allocations -/

theorem Sound.refill_old {h : Heap} (hs : h.Sound) {roots : Roots}
    (hroots : ∀ a ∈ roots.get, h.InUse a) {a : Address} (ha : (h.refill roots).InUse a) :
    h.InUse a ∧ SameNode h (h.refill roots) a := by
  unfold refill at ha ⊢
  split at ha
  next hfree =>
    have c := hs.collected hroots
    have hlive := c.live_of_inUse ha
    rw [if_pos hfree]
    exact ⟨hs.inUse_of_live hroots hlive, c.toKeeps.node a hlive⟩
  next hfree =>
    rw [if_neg hfree]
    exact ⟨ha, .refl h a⟩

/-- An allocation adds one node. -/
theorem Sound.allocate_inherits {h : Heap} (hs : h.Sound) {roots : Roots}
    (hroots : ∀ a ∈ roots.get, h.InUse a) {t : Tag} (ht : t ≠ .free) (n : Nat) :
    Ensures (allocate t n roots) h (fun a k => Inherits h k (· = a))
      (fun _ k => Inherits h k fun _ => False) := by
  have hold : Inherits h (h.refill roots) fun _ => False :=
    ⟨fun a ha _ => hs.refill_old hroots ha, fun _ _ _ _ _ _ hnew => hnew⟩
  have hfresh := hs.allocate_ensures hroots ht n
  unfold Ensures allocate at *
  by_cases hn : n = 0 ∨ nodeSize < n
  · rw [if_pos hn]
    exact .refl h
  · rw [if_neg hn] at hfresh ⊢
    by_cases hfree : (h.refill roots).free = noNode
    · simp only [if_pos hfree]
      exact hold
    · simp only [if_neg hfree] at hfresh ⊢
      obtain ⟨rest, taken⟩ :=
        (hs.refilled hroots).sound.taken hfree t (by omega : 1 ≤ n) (by omega)
      constructor
      · intro a ha hne
        have hin := taken.inUse_of_inUse ha hne
        obtain ⟨hin', same⟩ := hs.refill_old hroots hin
        exact ⟨hin', same.trans (taken.same a hin.toIsBlock hne)⟩
      · exact fun a ha hne => (hfresh.2.2.others a ha hne).2

/-- A node that is allocated and written at once is the only new one. -/
theorem Sound.make_inherits {h : Heap} (hs : h.Sound) {roots : Roots}
    (hroots : ∀ a ∈ roots.get, h.InUse a) {t : Tag} (ht : t ≠ .free) {n : Nat}
    {fill : Address → Heap → Heap}
    (hfill : ∀ a k, k.IsBlock a → n ≤ nodeSize → Writes k (fill a k) a) :
    Ensures (make t n fill roots) h (fun a k => Inherits h k (· = a))
      (fun _ k => Inherits h k fun _ => False) := by
  refine .bind (((hs.allocate_ensures hroots ht n).and (hs.allocate_inherits hroots ht n)).mono
    ?_ fun _ _ h => h.2)
  rintro a k ⟨⟨-, hle, f⟩, inherits⟩
  have w := hfill a k f.isBlock hle
  refine .bind (.modifyGet (.pure (inherits.written w.size rfl (fun b hb hne => w.same hb hne) ?_)))
  exact fun b hb hne => (f.others b hb hne).1.range

/-! ## What is made -/

/-- What an action adds is plain. -/
abbrev Adds {α : Type} (values : Address → Prop) (action : Action α) (h : Heap) : Prop :=
  Ensures action h (fun _ k => AddsPlain h k values) (fun _ k => AddsPlain h k values)

/-- What an action adds while a node is held is added to what was added before. -/
theorem AddsPlain.holding {α : Type} {values : Address → Prop} {h k : Heap}
    (adds : AddsPlain h k values) {a : Address} {action : Action α}
    (hadds : Adds values action (k.held a))
    (hsound : Ensures action (k.held a) (fun _ l => l.Sound) fun _ l => l.Sound) :
    Ensures (holding a action) k (fun _ l => AddsPlain h l values)
      fun _ l => AddsPlain h l values := by
  have hall : ∀ l : Heap, AddsPlain (k.held a) l values → l.Sound →
      AddsPlain h (l.withBuilding k.building) values := by
    intro l adds' hl
    have adds'' : AddsPlain k l values := adds'.congr ⟨rfl, rfl, rfl, rfl⟩ ⟨rfl, rfl, rfl, rfl⟩
    exact (adds.trans adds'' hl).congr ⟨rfl, rfl, rfl, rfl⟩ ⟨rfl, rfl, rfl, rfl⟩
  exact holding_ensures ((hadds.and hsound).mono (fun _ l hl => hall l hl.1 hl.2)
    fun _ l hl => hall l hl.1 hl.2)

section Makers

variable {h k : Heap} {roots : Roots} {P : Address → Prop}

/-- A plain node is all that is added. -/
theorem Sound.adds_make (hs : h.Sound) (hroots : ∀ a ∈ roots.get, h.InUse a) {t : Tag}
    (ht : t ≠ .free) {n : Nat} {fill : Address → Heap → Heap}
    (hfill : ∀ a k, k.IsBlock a → n ≤ nodeSize → Writes k (fill a k) a)
    (hplain : Ensures (make t n fill roots) h (fun a k => k.Plain P a) fun _ _ => True) :
    Adds P (make t n fill roots) h := by
  refine ((hs.make_inherits hroots ht hfill).and hplain).mono ?_ ?_
  · rintro a k ⟨inherits, plain⟩
    exact inherits.addsPlain plain
  · rintro e k ⟨inherits, -⟩
    exact ⟨_, inherits, fun _ _ hnew => hnew.elim⟩

/-- A new number is all that is added. -/
theorem Sound.newNumber_inherits (hs : h.Sound) (hroots : ∀ a ∈ roots.get, h.InUse a) (x : Number) :
    Ensures (newNumber x roots) h (fun a k => Inherits h k (· = a))
      fun _ k => Inherits h k fun _ => False :=
  hs.make_inherits hroots (by decide) fun _ _ hb _ => writes_setWord hb (by decide) _

theorem Sound.adds_newNumber (hs : h.Sound) (hroots : ∀ a ∈ roots.get, h.InUse a) (x : Number) :
    Adds P (newNumber x roots) h := by
  refine hs.adds_make hroots (t := .number) (by decide) ?_ ?_
  · exact fun a k hb _ => writes_setWord hb (by decide) _
  · exact (hs.newNumber_ensures hroots x).mono
      (fun _ _ made => .of_tag made.toHolds.tag rfl (by decide)) fun _ _ _ => trivial

theorem Sound.adds_newString (hs : h.Sound) (hroots : ∀ a ∈ roots.get, h.InUse a) (s : String) :
    Adds P (newString s roots) h := by
  refine .bind (.get ?_)
  split
  next => exact .pure (.refl h)
  next hnew =>
    refine .bind (((hs.allocate_ensures hroots (by decide) 2).and
      (hs.allocate_inherits hroots (t := .string) (by decide) 2)).mono ?_ ?_)
    · rintro a k ⟨⟨-, -, f⟩, inherits⟩
      refine .bind (.modifyGet (.pure (Inherits.addsPlain (a := a) (inherits.written
        (size_words_setWord ..) rfl (fun b hb hne => same_intern f.isBlock hb hne)
        fun b hb hne => (f.others b hb hne).1.range) ?_)))
      exact .of_tag (f.intern hs hnew).is_string rfl (by decide)
    · rintro e k ⟨-, inherits⟩
      exact ⟨_, inherits, fun _ _ hnew => hnew.elim⟩

theorem Sound.adds_newFrame (hs : h.Sound) (hroots : ∀ a ∈ roots.get, h.InUse a)
    (hvalues : P unassigned) (slots : Nat) : Adds P (newFrame slots roots) h := by
  refine ((hs.newFrame_ensures hroots slots).and (hs.allocate_inherits hroots (by decide) _)).mono
    ?_ ?_
  · rintro a k ⟨made, inherits⟩
    have hlen : (List.replicate slots unassigned).length = slots := List.length_replicate
    have holds : Holds k a (.fresh .frame ((List.replicate slots unassigned).length + 1))
        (.replicate slots unassigned) := hlen.symm ▸ made.toHolds
    refine inherits.addsPlain (.of_holds holds made.fits fun w hw => ?_)
    rw [List.eq_of_mem_replicate hw]
    exact hvalues
  · rintro e k ⟨-, inherits⟩
    exact ⟨_, inherits, fun _ _ hnew => hnew.elim⟩

theorem Sound.adds_extend (hs : h.Sound) (hroots : ∀ a ∈ roots.get, h.InUse a)
    {environment frame : Nat} (hlive : h.Live roots.get environment)
    (htag : h.tag environment = .environment) (hframe : h.Live roots.get frame)
    (hftag : h.tag frame = .frame) : Adds P (extend environment frame roots) h := by
  have hmade := hs.extend_ensures hroots hlive htag hframe hftag
  refine .bind (.get (hs.adds_make hroots (t := .environment) (by decide) ?_ ?_))
  · intro a k hb hle
    have first : Writes k (k.copyWords environment a 1 (h.frameCount environment)) a :=
      writes_copyWords _ hb (by omega)
    exact first.trans (writes_setWord (first.isBlock.2 hb) (by omega) frame)
  · exact hmade.mono (fun _ _ made => .of_tag (t := .environment) made.toHolds.tag rfl (by decide))
      fun _ _ _ => trivial

/-- A frame that was just made is held while it is put into an environment. -/
theorem Sound.adds_extend_held (hs : h.Sound) (hroots : ∀ a ∈ roots.get, h.InUse a)
    {environment frame : Nat} (hlive : h.Live roots.get environment)
    (htag : h.tag environment = .environment) {ws : List Nat}
    (made : Made h k roots.get frame (.fresh .frame (ws.length + 1)) ws)
    (adds : AddsPlain h k P) :
    Ensures (holding frame (extend environment frame roots)) k (fun _ l => AddsPlain h l P)
      fun _ l => AddsPlain h l P := by
  have hroots' : ∀ a ∈ roots.get, (k.held frame).InUse a :=
    fun a ha => (made.toGrows.inUse_root hroots ha).held
  have hlive' : (k.held frame).Live roots.get environment :=
    (made.toGrows.live hs hroots hlive).held
  have htag' : (k.held frame).tag environment = .environment := (made.toKeeps.tag hlive).trans htag
  have hk := made.sound.held made.toInUse
  refine adds.holding (hk.adds_extend hroots' hlive' htag' .self_held made.toHolds.tag) ?_
  exact (hk.extend_ensures hroots' hlive' htag' .self_held made.toHolds.tag).mono
    (fun _ _ new => new.sound) fun _ _ refused => refused.sound

/-- The frame and the environment of a new scope. -/
theorem Sound.adds_newInside (hs : h.Sound) (hroots : ∀ a ∈ roots.get, h.InUse a)
    {environment : Nat} (hlive : h.Live roots.get environment)
    (htag : h.tag environment = .environment) (hvalues : P unassigned) (slots : Nat) {α : Type}
    (result : Address → α) :
    Adds P (do
      let frame ← newFrame slots roots
      let inside ← holding frame (extend environment frame roots)
      return result inside) h := by
  refine .bind (((hs.newFrame_ensures hroots slots).and
    (hs.adds_newFrame hroots hvalues slots)).mono ?_ fun _ _ h => h.2)
  rintro frame k ⟨made, adds⟩
  have hlen : (List.replicate slots unassigned).length = slots := List.length_replicate
  have made' : Made h k roots.get frame
      (.fresh .frame ((List.replicate slots unassigned).length + 1))
      (.replicate slots unassigned) := hlen.symm ▸ made
  exact .bind ((hs.adds_extend_held hroots hlive htag made' adds).mono (fun _ _ adds => .pure adds)
    fun _ _ adds => adds)

theorem Sound.adds_newScope (hs : h.Sound) (hroots : ∀ a ∈ roots.get, h.InUse a)
    {environment : Nat} (hlive : h.Live roots.get environment)
    (htag : h.tag environment = .environment) (hvalues : P unassigned) (slots : Nat) :
    Adds P (newScope environment slots roots) h := by
  have hblock := hs.newBlock_ensures hroots hlive htag
  have hadds : Adds P (newBlock environment roots) h :=
    hs.adds_make hroots (by decide) (fun a k hb _ => writes_setWord hb (by decide) _)
      (hblock.mono (fun _ _ made => .of_tag made.toHolds.tag rfl (by decide)) fun _ _ _ => trivial)
  rw [newScope_eq]
  refine .bind ((hblock.and hadds).mono ?_ fun _ _ h => h.2)
  rintro block k ⟨made, adds⟩
  have hroots' : ∀ a ∈ roots.get, (k.held block).InUse a :=
    fun a ha => (made.toGrows.inUse_root hroots ha).held
  have hk := made.sound.held made.toInUse
  have hlive' : (k.held block).Live roots.get environment :=
    (made.toGrows.live hs hroots hlive).held
  have htag' : (k.held block).tag environment = .environment := (made.toKeeps.tag hlive).trans htag
  refine adds.holding (hk.adds_newInside hroots' hlive' htag' hvalues slots _) ?_
  exact (hk.newInside_ensures hroots' hlive' htag' slots (Prod.mk block)).mono
    (fun _ _ ⟨_, _, _, new⟩ => new.toGrows.sound) fun _ _ failed => failed.toGrows.sound

theorem Sound.adds_newArguments (hs : h.Sound) (hroots : ∀ a ∈ roots.get, h.InUse a)
    {captured : Nat} (hlive : h.Live roots.get captured) (htag : h.tag captured = .environment)
    {arguments : List Nat}
    (harguments : ∀ w ∈ arguments, h.Live roots.get w ∧ (h.tag w).isValue = true)
    (hvalues : ∀ w ∈ arguments, P w) : Adds P (newArguments captured arguments roots) h := by
  have hframe := hs.newArgumentFrame_ensures hroots harguments
  have hadds : Adds P (newArgumentFrame arguments roots) h :=
    hs.adds_make hroots (by decide)
      (fun a k hb hle => writes_setWords arguments hb (by rw [Nat.add_comm]; exact hle))
      (hframe.mono (fun _ _ made => .of_holds made.toHolds made.fits hvalues) fun _ _ _ => trivial)
  rw [newArguments_eq]
  refine .bind ((hframe.and hadds).mono ?_ fun _ _ h => h.2)
  rintro frame k ⟨made, adds⟩
  exact hs.adds_extend_held hroots hlive htag made adds

theorem Sound.adds_newCall (hs : h.Sound) (hroots : ∀ a ∈ roots.get, h.InUse a) (resume : Nat)
    {environment captured : Nat} (henv : h.Live roots.get environment)
    (hetag : h.tag environment = .environment) (hlive : h.Live roots.get captured)
    (htag : h.tag captured = .environment) {arguments : List Nat}
    (harguments : ∀ w ∈ arguments, h.Live roots.get w ∧ (h.tag w).isValue = true)
    (hvalues : ∀ w ∈ arguments, P w) :
    Adds P (newCall resume environment captured arguments roots) h := by
  have hframe := hs.newCallFrame_ensures hroots resume henv hetag
  have hadds : Adds P (newCallFrame resume environment roots) h :=
    hs.adds_make hroots (by decide)
      (fun a k hb hle => (holds_setPayload_setWords hb _ [environment] hle).1)
      (hframe.mono (fun _ _ made => .of_tag (t := .callframe) made.toHolds.tag rfl (by decide))
        fun _ _ _ => trivial)
  rw [newCall_eq]
  refine .bind ((hframe.and hadds).mono ?_ fun _ _ h => h.2)
  rintro call k ⟨made, adds⟩
  have hroots' : ∀ a ∈ roots.get, (k.held call).InUse a :=
    fun a ha => (made.toGrows.inUse_root hroots ha).held
  have hk := made.sound.held made.toInUse
  have hlive' : (k.held call).Live roots.get captured := (made.toGrows.live hs hroots hlive).held
  have htag' : (k.held call).tag captured = .environment := (made.toKeeps.tag hlive).trans htag
  have harguments' : ∀ w ∈ arguments, (k.held call).Live roots.get w ∧
      ((k.held call).tag w).isValue = true := by
    intro w hw
    obtain ⟨hl, hv⟩ := harguments w hw
    refine ⟨(made.toGrows.live hs hroots hl).held, ?_⟩
    rw [show (k.held call).tag w = h.tag w from made.toKeeps.tag hl]
    exact hv
  have hinside := hk.newArguments_ensures hroots' hlive' htag' harguments'
  refine adds.holding (.bind ?_) (.bind (hinside.mono ?_ fun _ _ failed => failed.toGrows.sound))
  · exact (hk.adds_newArguments hroots' hlive' htag' harguments' hvalues).mono (fun _ _ h => .pure h)
      fun _ _ h => h
  · exact fun _ _ ⟨_, new⟩ => .pure new.toGrows.sound

/-- A new function is all that is added.  If it cannot be made, nothing is. -/
theorem Sound.newClosure_inherits (hs : h.Sound) (hroots : ∀ a ∈ roots.get, h.InUse a)
    (arity entry : Nat) (environment : Address) :
    Ensures (newClosure arity entry environment roots) h (fun a k => Inherits h k (· = a))
      fun _ k => Inherits h k fun _ => False :=
  hs.make_inherits hroots (by decide) fun _ _ hb hle =>
    (holds_setPayload_setWords hb _ [arity, environment] hle).1

/-! ## Channels and wait-groups -/

/-- A new channel is all that is added.  If it cannot be made, nothing is. -/
theorem Sound.newChannel_inherits (hs : h.Sound) (hroots : ∀ a ∈ roots.get, h.InUse a)
    (capacity : Nat) :
    Ensures (newChannel capacity roots) h (fun a k => Inherits h k (· = a))
      fun _ k => AddsPlain h k fun _ => False := by
  rw [newChannel_eq]
  split
  next => exact .throw (.refl h)
  next =>
    refine (hs.make_inherits hroots (by decide) ?_).mono (fun _ _ inherits => inherits) ?_
    · intro a k hb hle
      have hlen := length_emptyRing (max capacity 1)
      have hstart : ringStart = 4 := rfl
      exact (holds_setPayload_setWords hb _ (emptyRing (max capacity 1)) (by omega)).1
    · exact fun _ _ inherits => ⟨_, inherits, fun _ _ hnew => hnew.elim⟩

/-- A new wait-group and its counter are all that is added.  If it cannot be made, at most a number
is. -/
theorem Sound.newWaitGroup_inherits (hs : h.Sound) (hroots : ∀ a ∈ roots.get, h.InUse a) :
    Ensures (newWaitGroup roots) h (fun a k => Inherits h k fun b => b = k.word a 1 ∨ b = a)
      fun _ k => AddsPlain h k fun _ => False := by
  have hnumber := hs.newNumber_ensures hroots .zero
  rw [newWaitGroup_eq]
  refine .bind ((hnumber.and (hs.newNumber_inherits hroots .zero)).mono ?_ ?_)
  · rintro counter k ⟨made, inherits⟩
    have hroots' : ∀ a ∈ roots.get, (k.held counter).InUse a :=
      fun a ha => (made.toGrows.inUse_root hroots ha).held
    have hk := made.sound.held made.toInUse
    have hgroup := hk.newGroupNode_ensures hroots' .self_held made.toHolds.tag
    have hinherits' : Ensures (newGroupNode counter roots) (k.held counter)
        (fun a k' => Inherits (k.held counter) k' (· = a))
        fun _ k' => Inherits (k.held counter) k' fun _ => False :=
      hk.make_inherits hroots' (by decide) fun a k hb _ => writes_setWord hb (by decide) _
    refine holding_ensures ((hgroup.and hinherits').mono ?_ ?_)
    · rintro a l ⟨new, inherits'⟩
      have hword : l.word a 1 = counter := new.toHolds.word 0 counter rfl
      have inherits'' : Inherits k l (· = a) :=
        inherits'.congr ⟨rfl, rfl, rfl, rfl⟩ ⟨rfl, rfl, rfl, rfl⟩
      have same : SameArena l (l.withBuilding k.building) := ⟨rfl, rfl, rfl, rfl⟩
      have both := (inherits.trans inherits'' new.sound).congr ⟨rfl, rfl, rfl, rfl⟩ same
      rw [← hword] at both
      exact both
    · rintro e l ⟨refused, inherits'⟩
      have adds : AddsPlain h k (fun _ => False) :=
        inherits.addsPlain (.of_tag made.toHolds.tag rfl (by decide))
      have adds' : AddsPlain k l (fun _ => False) := ⟨_, inherits'.congr ⟨rfl, rfl, rfl, rfl⟩ ⟨rfl, rfl, rfl, rfl⟩,
        fun _ _ hnew => hnew.elim⟩
      exact (adds.trans adds' refused.sound).congr ⟨rfl, rfl, rfl, rfl⟩ ⟨rfl, rfl, rfl, rfl⟩
  · rintro e k ⟨-, inherits⟩
    exact ⟨_, inherits, fun _ _ hnew => hnew.elim⟩

end Makers

end Heap

end ChannelMachine
