import ChannelMachine.Proofs.Heap.Fresh

/-!
# Making nodes

Most nodes are made in the same way: a node is allocated and its words are written at once.
`Contents` says which header and words make a sound node of nodes that are live, `Made` is the heap
with the new node, and `Refused` the one in which it could not be made.  `make_ensures` puts the
three together for any action that goes on with the node.

A node that is held while others are made is live, and `held_ensures` is the rule for it.
-/

namespace ChannelMachine.Heap

/-! ## Contents -/

/-- The node at an address has this header and these words behind it. -/
structure Holds (h : Heap) (a : Nat) (header : Header) (ws : List Nat) : Prop where
  /-- The header. -/
  header : h.header a = header
  /-- The words. -/
  word : ∀ i w, ws[i]? = some w → h.word a (i + 1) = w

/-- The words behind a header are what its kind requires, with children that are live. -/
structure Contents (h : Heap) (roots : List Address) (header : Header) (ws : List Nat) :
    Prop where
  /-- The header knows how many words there are. -/
  size : header.size.toNat = ws.length + 1
  /-- They fit a node. -/
  le : ws.length + 1 ≤ nodeSize
  /-- There is no mark. -/
  mark : header.mark = 0
  /-- All children are among the words. -/
  range : header.childRange.2 ≤ ws.length + 1
  /-- The children are live nodes of a kind that is admitted. -/
  child : ∀ i w, header.childRange.1 ≤ i + 1 → i + 1 < header.childRange.2 → ws[i]? = some w →
    (header.tag = .channel ∧ w = vacant) ∨ (h.Live roots w ∧ header.tag.Admits (h.tag w))
  /-- The indices of a channel are those of slots. -/
  ring : header.tag = .channel → ∃ slots write read rest, ws = slots :: write :: read :: rest ∧
    rest.length = slots ∧ write < slots ∧ read < slots

namespace Holds

variable {h k : Heap} {a : Nat} {header : Header} {ws : List Nat}

theorem tag (holds : Holds h a header ws) : h.tag a = header.tag := congrArg Header.tag holds.header

theorem of_same (holds : Holds h a header ws) (hle : ws.length + 1 ≤ nodeSize)
    (same : SameNode h k a) : Holds k a header ws := by
  refine ⟨same.header.trans holds.header, fun i w hw => ?_⟩
  have hlt := (List.getElem?_eq_some_iff.1 hw).1
  rw [same.word (i + 1) (by omega) (by omega)]
  exact holds.word i w hw

/-- Contents make a sound node where their children are in use. -/
theorem nodeSound {roots : List Address} (holds : Holds k a header ws)
    (c : Contents h roots header ws) (hlive : ∀ b, h.Live roots b → k.InUse b)
    (htag : ∀ b, h.Live roots b → k.tag b = h.tag b) : k.NodeSound a where
  pos := by
    rw [Heap.size, holds.header, c.size]
    exact Nat.le_add_left ..
  le := by
    rw [Heap.size, holds.header, c.size]
    exact c.le
  child := by
    intro i hle hlt
    rw [holds.header] at hle hlt
    have hpos := Header.one_le_childRange_fst (Nat.lt_of_le_of_lt hle hlt)
    have hend := c.range
    obtain ⟨j, rfl⟩ : ∃ j, i = j + 1 := ⟨i - 1, by omega⟩
    have hj : j < ws.length := by omega
    have hw := List.getElem?_eq_getElem hj
    rw [holds.word j _ hw, holds.tag]
    rcases c.child j _ hle hlt hw with hvacant | ⟨hl, hadmits⟩
    · exact .inl hvacant
    · exact .inr ⟨hlive _ hl, (htag _ hl).symm ▸ hadmits⟩
  ring := by
    intro hchannel
    obtain ⟨slots, write, read, rest, hws, hlen, hwrite, hread⟩ :=
      c.ring (holds.tag.symm.trans hchannel)
    have hsize := c.size
    rw [hws] at hsize
    have h1 : k.channelSlots a = slots := holds.word 0 slots (by rw [hws]; rfl)
    have h2 : k.writeSlot a = write := holds.word 1 write (by rw [hws]; rfl)
    have h3 : k.readSlot a = read := holds.word 2 read (by rw [hws]; rfl)
    rw [h1, h2, h3, Heap.size, holds.header, hsize]
    refine ⟨?_, hwrite, hread⟩
    simp only [List.length_cons, ringStart]
    omega

end Holds

/-! ## Nodes that were made -/

/-- A node with a header and words that was not live. -/
structure New (h k : Heap) (roots : List Address) (a : Nat) (header : Header) (ws : List Nat) :
    Prop extends InUse k a, Holds k a header ws where
  /-- The node was not live. -/
  not_live : ¬ h.Live roots a
  /-- It was a node of the arena. -/
  isBlock : h.IsBlock a
  /-- The words fit the node. -/
  fits : ws.length + 1 ≤ nodeSize

/-- A sound heap with all that was live and one node more. -/
structure Made (h k : Heap) (roots : List Address) (a : Nat) (header : Header) (ws : List Nat) :
    Prop extends Grows h k roots, New h k roots a header ws

/-- A node that is kept is still new. -/
theorem New.of_keeps {h k l : Heap} {roots : List Address} {a : Nat} {header : Header}
    {ws : List Nat} (new : New h k roots a header ws) {nodes : Address → Prop}
    (keeps : Keeps k l nodes) (ha : nodes a) : New h l roots a header ws :=
  ⟨keeps.inUse ha new.toInUse, new.toHolds.of_same new.fits (keeps.node a ha), new.not_live,
    new.isBlock, new.fits⟩

/-- A node that was not live is not live in the heap before it. -/
theorem New.trans {h k l : Heap} {roots : List Address} {a : Nat} {header : Header}
    {ws : List Nat} (g : Grows h k roots) (hs : h.Sound) (hroots : ∀ a ∈ roots, h.InUse a)
    (new : New k l roots a header ws) : New h l roots a header ws :=
  ⟨new.toInUse, new.toHolds, fun hl => new.not_live (g.live hs hroots hl),
    g.toKeeps.isBlock.1 new.isBlock, new.fits⟩

/-- A node of `n` words could not be made: it would not fit, or all nodes are live. -/
structure Refused (h k : Heap) (roots : List Address) (n : Nat) (e : Fault) : Prop extends
    Grows h k roots where
  /-- The cause. -/
  cause : (e = .nodeTooLarge n ∧ ¬ (1 ≤ n ∧ n ≤ nodeSize)) ∨
    (e = .heapExhausted ∧ 1 ≤ n ∧ n ≤ nodeSize ∧ ∀ a, h.IsBlock a → h.Live roots a)

/-- One of several nodes could not be made. -/
structure Failed (h k : Heap) (roots : List Address) (sizes : List Nat) (e : Fault) : Prop extends
    Grows h k roots where
  /-- The cause. -/
  cause : e = .heapExhausted ∨
    ∃ n ∈ sizes, e = .nodeTooLarge n ∧ ¬ (1 ≤ n ∧ n ≤ nodeSize)

theorem Refused.failed {h k : Heap} {roots : List Address} {n : Nat} {e : Fault}
    (r : Refused h k roots n e) {sizes : List Nat} (hn : n ∈ sizes) : Failed h k roots sizes e := by
  refine ⟨r.toGrows, ?_⟩
  rcases r.cause with ⟨he, hfits⟩ | ⟨he, -⟩
  · exact .inr ⟨n, hn, he, hfits⟩
  · exact .inl he

/-- Writing the contents into a fresh node makes it a node in use. -/
theorem Fresh.made {h k l : Heap} {roots : List Address} {a n : Nat} {t : Tag} {header : Header}
    {ws : List Nat} (f : Fresh h k roots a t n) (ht : t ≠ .free) (hstring : t ≠ .string)
    (w : Writes k l a) (holds : Holds l a header ws) (htag : header.tag = t)
    (c : Contents h roots header ws) : Made h l roots a header ws := by
  have htag' : l.tag a = t := holds.tag.trans htag
  have htags : ∀ b, h.Live roots b → l.tag b = h.tag b := by
    intro b hb
    have hne : b ≠ a := by
      rintro rfl
      exact f.not_live hb
    rw [(w.same (f.live b hb).toIsBlock hne).tag, f.toKeeps.tag hb]
  have hlive : ∀ b, h.Live roots b → l.InUse b := by
    intro b hb
    refine ⟨w.isBlock.2 (f.live b hb).toIsBlock, ?_⟩
    rw [htags b hb, ← f.toKeeps.tag hb]
    exact (f.live b hb).tag_ne
  have g : Grows h l roots := f.fill ht hstring w htag' (holds.header.symm ▸ c.mark)
    (holds.nodeSound c hlive htags)
  exact ⟨g, ⟨w.isBlock.2 f.isBlock, htag'.symm ▸ ht⟩, holds, f.not_live,
    f.toKeeps.isBlock.1 f.isBlock, c.le⟩

/-- Allocates a node and writes its words. -/
def make (t : Tag) (n : Nat) (fill : Address → Heap → Heap) (roots : Roots) : Action Address := do
  let a ← allocate t n roots
  update (fill a)
  return a

/-- An action that goes on with a node that it allocated and wrote. -/
theorem make_bind {α : Type} (t : Tag) (n : Nat) (fill : Address → Heap → Heap) (roots : Roots)
    (f : Address → Action α) :
    (do let a ← allocate t n roots; update (fill a); f a) = make t n fill roots >>= f := by
  simp only [make, bind_assoc, pure_bind]

theorem Sound.make_ensures {h : Heap} (hs : h.Sound) {roots : Roots}
    (hroots : ∀ a ∈ roots.get, h.InUse a) (t : Tag) (header : Header) (ws : List Nat)
    (htag : header.tag = t) (ht : t ≠ .free) (hstring : t ≠ .string) {n : Nat}
    {fill : Address → Heap → Heap}
    (hlen : 1 ≤ n → n ≤ nodeSize → Contents h roots.get header ws)
    (hfill : ∀ a k, Fresh h k roots.get a t n → n ≤ nodeSize →
      Writes k (fill a k) a ∧ Holds (fill a k) a header ws) :
    Ensures (make t n fill roots) h (fun a k => Made h k roots.get a header ws)
      (fun e k => Refused h k roots.get n e) := by
  refine .bind ((hs.allocate_ensures hroots ht n).mono ?_ ?_)
  · rintro a k ⟨hpos, hle, fresh⟩
    obtain ⟨w, holds⟩ := hfill a k fresh hle
    exact .bind (.modifyGet (.pure (fresh.made ht hstring w holds htag (hlen hpos hle))))
  · rintro e k (⟨rfl, hn, rfl⟩ | ⟨rfl, hpos, hle, r, hfull⟩)
    · exact ⟨.refl hs _, .inl ⟨rfl, by omega⟩⟩
    · exact ⟨r.grows, .inr ⟨rfl, hpos, hle, hfull⟩⟩

/-! ## Nodes that are held -/

/-- The heap in which other nodes are being built. -/
def withBuilding (h : Heap) (building : List Address) : Heap := { h with building }

/-- The heap in which one node more is being built. -/
def held (h : Heap) (a : Address) : Heap := h.withBuilding (a :: h.building)

theorem holding_ensures {α : Type} {h : Heap} {a : Address} {action : Action α}
    {good : α → Heap → Prop} {bad : Fault → Heap → Prop}
    (hx : Ensures action (h.held a) (fun x k => good x (k.withBuilding h.building))
      (fun e k => bad e (k.withBuilding h.building))) :
    Ensures (holding a action) h good bad := by
  unfold Ensures holding at *
  simp only
  cases heq : action { h with building := a :: h.building } with
  | ok x k =>
    rw [held, withBuilding, heq] at hx
    exact hx
  | error e k =>
    rw [held, withBuilding, heq] at hx
    exact hx

theorem alike_withBuilding (h : Heap) (building : List Address) :
    Alike h (h.withBuilding building) :=
  ⟨⟨rfl, rfl, rfl, rfl⟩, rfl, rfl, rfl⟩

theorem Sound.held {h : Heap} (hs : h.Sound) {a : Address} (ha : h.InUse a) : (h.held a).Sound := by
  refine hs.alike (alike_withBuilding h _) fun b hb => ?_
  rcases List.mem_cons.1 hb with rfl | hb
  · exact ha
  · exact hs.building b hb

theorem IsBlock.held {h : Heap} {a b : Address} (hb : h.IsBlock b) : (h.held a).IsBlock b :=
  ⟨hb.aligned, hb.inside⟩

theorem InUse.held {h : Heap} {a b : Address} (hb : h.InUse b) : (h.held a).InUse b :=
  (alike_withBuilding h _).inUse.2 hb

/-- What was live is live while another node is held. -/
theorem Live.held {h : Heap} {roots : List Address} {a b : Address} (hb : h.Live roots b) :
    (h.held a).Live roots b := by
  refine Reach.mono hb fun c hc => ?_
  simp only [List.mem_append, List.mem_reverse] at hc ⊢
  rcases hc with (hc | hc) | hc
  · exact .inl (.inl hc)
  · exact .inl (.inr (List.mem_cons_of_mem _ hc))
  · exact .inr hc

/-- A node that is held is live. -/
theorem Live.self_held {h : Heap} {roots : List Address} {a : Address} :
    (h.held a).Live roots a :=
  .building (List.mem_cons_self ..)

/-- What is made while a node is held keeps what was live, and the node. -/
theorem Grows.keeps_held {h k : Heap} {roots : List Address} {a : Address}
    (g : Grows (h.held a) k roots) :
    Keeps h (k.withBuilding h.building) ((h.held a).Live roots) :=
  (((alike_withBuilding h _).keeps _).trans g.toKeeps).trans ((alike_withBuilding k _).keeps _)

theorem Grows.unhold {h k : Heap} {roots : List Address} {a : Address}
    (g : Grows (h.held a) k roots) : Grows h (k.withBuilding h.building) roots where
  toKeeps := g.keeps_held.mono fun _ hb => hb.held
  building := rfl
  sound := g.sound.alike (alike_withBuilding k _) fun b hb =>
    g.sound.building b (g.building.symm ▸ List.mem_cons_of_mem _ hb)

/-- What is new while a node is held is new. -/
theorem New.unhold {h k : Heap} {roots : List Address} {a b : Address} {header : Header}
    {ws : List Nat} (new : New (h.held a) k roots b header ws) :
    New h (k.withBuilding h.building) roots b header ws where
  toInUse := (alike_withBuilding k _).inUse.2 new.toInUse
  toHolds := new.toHolds.of_same new.fits ((alike_withBuilding k _).same b)
  not_live := fun hl => new.not_live hl.held
  isBlock := (alike_withBuilding h _).isBlock.1 new.isBlock
  fits := new.fits

end ChannelMachine.Heap
