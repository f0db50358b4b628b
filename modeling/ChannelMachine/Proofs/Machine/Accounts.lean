import ChannelMachine.Proofs.Machine.Standing

/-!
# The accounts of channels

An `Account` records for a channel, from the moment it was made, which values it accepted and from
whom, and which values it delivered.  A `Ledger` has an account for each address at which a channel
was made; making another one there starts a new account.

`Booked m l` says that the accounts are right.  What a channel delivered is the beginning of what it
accepted, in the order in which it accepted it, and what it still holds stands in its slots.  On an
unbuffered channel the senders of these values are the threads that wait for their value to be taken
over.  Each instruction keeps a ledger right if its deal is entered.
-/

namespace ChannelMachine

/-- The history of a channel. -/
structure Account where
  /-- The capacity that it was made with. -/
  capacity : Nat
  /-- The values that it accepted, each with its sender, the oldest first. -/
  sent : List (ThreadId × Address)
  /-- The values that it delivered, the oldest first. -/
  received : List Address

namespace Account

/-- The account of a new channel. -/
def new (capacity : Nat) : Account := ⟨capacity, [], []⟩

/-- A value of a thread is accepted. -/
def accept (x : Account) (t : ThreadId) (v : Address) : Account :=
  { x with sent := x.sent ++ [(t, v)] }

/-- A value is delivered. -/
def deliver (x : Account) (v : Address) : Account := { x with received := x.received ++ [v] }

/-- What was accepted and not yet delivered. -/
def held (x : Account) : List (ThreadId × Address) := x.sent.drop x.received.length

/-- How many values a channel holds at most. -/
def slots (x : Account) : Nat := max x.capacity 1

/-- Nothing is lost, made up, delivered twice or out of order. -/
structure Fair (x : Account) : Prop where
  /-- The capacity is one that channels can have. -/
  capacity : x.capacity ≤ maxCapacity
  /-- What was delivered was accepted before, in this order. -/
  order : x.received <+: x.sent.map Prod.snd
  /-- No more values are held than fit. -/
  fits : x.held.length ≤ x.slots

variable {x : Account} {t : ThreadId} {v : Address}

theorem slots_pos (x : Account) : 0 < x.slots := Nat.lt_of_lt_of_le Nat.one_pos (Nat.le_max_right ..)

theorem fair_new {capacity : Nat} (hle : capacity ≤ maxCapacity) : (new capacity).Fair :=
  ⟨hle, List.prefix_rfl, Nat.zero_le _⟩

/-- What a channel holds alone is what it accepted last. -/
theorem getLast?_sent (hheld : x.held = [(t, v)]) : x.sent.getLast? = some (t, v) := by
  have hlast : x.held.getLast? = some (t, v) := by rw [hheld]; rfl
  rw [held, List.getLast?_drop] at hlast
  split at hlast
  next => cases hlast
  next => exact hlast

theorem held_deliver : (x.deliver v).held = x.held.tail := by
  rw [held, held, deliver, List.length_append, List.length_singleton, List.tail_drop]

namespace Fair

theorem length_le (fair : x.Fair) : x.received.length ≤ x.sent.length := by
  have hle := fair.order.length_le
  rwa [List.length_map] at hle

/-- All that was accepted has been delivered or is held. -/
theorem sent_eq (fair : x.Fair) : x.sent.map Prod.snd = x.received ++ x.held.map Prod.snd := by
  obtain ⟨rest, heq⟩ := fair.order
  rw [held, List.map_drop, ← heq, List.drop_left]

theorem held_accept (fair : x.Fair) : (x.accept t v).held = x.held ++ [(t, v)] :=
  List.drop_append_of_le_length fair.length_le

theorem accept (fair : x.Fair) (hroom : x.held.length < x.slots) : (x.accept t v).Fair where
  capacity := fair.capacity
  order := by
    rw [Account.accept, List.map_append]
    exact fair.order.trans (List.prefix_append ..)
  fits := by
    rw [fair.held_accept, List.length_append]
    exact hroom

theorem deliver (fair : x.Fair) {rest : List (ThreadId × Address)}
    (hheld : x.held = (t, v) :: rest) : (x.deliver v).Fair where
  capacity := fair.capacity
  order := by
    refine ⟨rest.map Prod.snd, ?_⟩
    have hsent := fair.sent_eq
    rw [hheld] at hsent
    simpa [Account.deliver] using hsent.symm
  fits := by
    have hfits := fair.fits
    rw [hheld, List.length_cons] at hfits
    rw [held_deliver, hheld]
    exact Nat.le_of_succ_le hfits

end Fair

end Account

/-! ## Ledgers -/

/-- The accounts of channels by address. -/
abbrev Ledger := Address → Option Account

namespace Ledger

/-- The ledger with another account at an address. -/
def set (l : Ledger) (a : Address) (x : Option Account) : Ledger :=
  fun b => if b = a then x else l b

/-- Enters what happened to a channel, if anything. -/
def enter (l : Ledger) : Option Deal → Ledger
  | none => l
  | some (.made a capacity) => l.set a (some (.new capacity))
  | some (.sent t a v) => l.set a ((l a).map (·.accept t v))
  | some (.received _ a v) => l.set a ((l a).map (·.deliver v))

/-- How many values the channel at an address holds. -/
def load (l : Ledger) (a : Address) : Nat := ((l a).map fun x => x.held.length).getD 0

/-- How many values the channel at an address has room for. -/
def room (l : Ledger) (a : Address) : Nat := ((l a).map fun x => x.slots - x.held.length).getD 0

variable {l : Ledger} {a b : Address}

@[simp] theorem set_self (l : Ledger) (a : Address) (x : Option Account) : l.set a x a = x :=
  if_pos rfl

theorem set_of_ne (l : Ledger) (x : Option Account) (hne : b ≠ a) : l.set a x b = l b := if_neg hne

/-- A deal is about one account only. -/
theorem enter_of_ne {d : Option Deal} (hd : ∀ x, d = some x → x.channel ≠ b) :
    l.enter d b = l b := by
  match d, hd with
  | none, _ => rfl
  | some (.made a _), hd => exact set_of_ne l _ (Ne.symm (hd _ rfl))
  | some (.sent _ a _), hd => exact set_of_ne l _ (Ne.symm (hd _ rfl))
  | some (.received _ a _), hd => exact set_of_ne l _ (Ne.symm (hd _ rfl))

theorem load_eq {x : Account} (hx : l a = some x) : l.load a = x.held.length := by
  rw [load, hx]
  rfl

theorem room_eq {x : Account} (hx : l a = some x) : l.room a = x.slots - x.held.length := by
  rw [room, hx]
  rfl

theorem load_congr {l' : Ledger} (h : l' a = l a) : l'.load a = l.load a := by rw [load, h, load]

theorem room_congr {l' : Ledger} (h : l' a = l a) : l'.room a = l.room a := by rw [room, h, room]

end Ledger

/-! ## Ledgers that are right -/

namespace Machine

variable {m k : Machine} {program : Program} {p : Progress} {d : Option Deal} {l : Ledger}

/-- A channel is as its account says. -/
structure Books (m : Machine) (a : Address) (x : Account) : Prop where
  /-- The slots hold what is not yet delivered. -/
  ring : m.heap.Ring a (x.held.map Prod.snd)
  /-- There are as many slots as the capacity asks for. -/
  slots : m.heap.channelSlots a = x.slots
  /-- Capacity zero makes it unbuffered. -/
  unbuffered : m.heap.isUnbuffered a = (x.capacity == 0)
  /-- The senders that wait are those whose value lies in the slot. -/
  senders : m.queue (.channel .sender a) = if x.capacity = 0 then x.held.map Prod.fst else []

/-- The accounts of a ledger are right. -/
structure Booked (m : Machine) (l : Ledger) : Prop where
  /-- Also those of channels that are gone. -/
  fair : ∀ a x, l a = some x → x.Fair
  /-- Every channel has an account. -/
  books : ∀ a, m.heap.InUse a → m.heap.tag a = .channel → ∃ x, l a = some x ∧ Books m a x

/-- Only the heap and the queues count. -/
theorem Booked.congr (booked : Booked m l) (hheap : k.heap = m.heap)
    (hqueue : ∀ q, k.queue q = m.queue q) : Booked k l where
  fair := booked.fair
  books := by
    intro a ha htag
    rw [hheap] at ha htag
    obtain ⟨x, hx, books⟩ := booked.books a ha htag
    refine ⟨x, hx, ?_, ?_, ?_, ?_⟩
    · exact hheap.symm ▸ books.ring
    · exact hheap.symm ▸ books.slots
    · exact hheap.symm ▸ books.unbuffered
    · exact (hqueue _).trans books.senders

/-! ## Channels that nothing happens to -/

/-- A channel is what it was, but for the kind of its elements. -/
structure SameChannel (h k : Heap) (a : Address) : Prop where
  /-- It was in use. -/
  inUse : h.InUse a
  /-- It was a channel. -/
  tag : h.tag a = .channel
  /-- The words behind the header. -/
  word : ∀ i, 1 ≤ i → i < nodeSize → k.word a i = h.word a i
  /-- Whether it is unbuffered. -/
  unbuffered : k.isUnbuffered a = h.isUnbuffered a

namespace SameChannel

variable {h k : Heap} {a b : Address}

theorem of_same (ha : h.InUse a) (same : Heap.SameNode h k a) (htag : k.tag a = .channel) :
    SameChannel h k a :=
  ⟨ha, same.tag.symm.trans htag, same.word, Heap.isUnbuffered_congr same.header⟩

theorem of_spares {roots : List Address} {but : Address → Prop} (spares : Heap.Spares h k roots but)
    (ha : k.InUse a) (htag : k.tag a = .channel) (hnot : ¬ but a) : SameChannel h k a := by
  obtain ⟨hin, same⟩ := spares.old a ha (Heap.isMeeting_of_tag htag rfl) hnot
  exact .of_same hin same htag

theorem of_updated (u : Heap.Updated h k b) (ha : k.InUse a) (htag : k.tag a = .channel)
    (hne : a ≠ b) : SameChannel h k a := by
  have same := u.toWrites.same (u.toWrites.isBlock.1 ha.toIsBlock) hne
  exact .of_same ((Heap.InUse.congr u.toWrites.size same.tag).1 ha) same htag

end SameChannel

/-- A channel that no deal is about stays what it is. -/
theorem Acts.sameChannel (acts : Acts program m k p d) (hm : m.Sound) {a : Address}
    (ha : k.heap.InUse a) (htag : k.heap.tag a = .channel)
    (hd : ∀ x, d = some x → x.channel ≠ a) : SameChannel m.heap k.heap a := by
  have hsame : k.heap = m.heap → SameChannel m.heap k.heap a := by
    intro heq
    rw [heq] at ha htag ⊢
    exact .of_same ha (.refl _ a) htag
  cases acts with
  | apart _ _ _ _ apart => exact .of_spares apart.heap ha htag id
  | started _ heap => exact hsame heap
  | madeChannel _ _ _ _ heap => exact .of_spares heap ha htag (Ne.symm (hd _ rfl))
  | sent _ stack tag _ _ check heap =>
    obtain ⟨u, -⟩ := hm.updated_sent stack tag check
    rw [heap] at ha htag ⊢
    exact .of_updated u ha htag (Ne.symm (hd _ rfl))
  | @full v b _ _ stack tag _ _ check =>
    have hin := hm.inUse_below stack
    have u := check.updated hm.heap hin tag
    by_cases heq : a = b
    · subst heq
      refine ⟨hin, tag, fun i hpos hlt => ?_, check.isUnbuffered hin.toIsBlock⟩
      exact check.word hin.toIsBlock hpos hlt
    · exact .of_updated u ha htag heq
  | received _ stack tag _ _ heap =>
    have hin := hm.inUse_top stack
    rw [heap] at ha htag ⊢
    exact .of_updated (hm.heap.channelPop hin tag) ha htag (Ne.symm (hd _ rfl))
  | empty _ _ _ _ _ heap => exact hsame heap
  | madeGroup _ _ _ heap _ tag =>
    refine .of_spares heap ha htag fun heq => ?_
    rw [heq, tag] at htag
    cases htag
  | counted _ inUse tag _ _ heap =>
    rw [heap] at ha htag ⊢
    have u := hm.heap.setGroupCount inUse tag
    refine .of_updated (u _) ha htag fun heq => ?_
    rw [heq, (u _).kind, (hm.heap.counter inUse tag).2] at htag
    cases htag
  | waits _ _ _ _ _ heap => exact hsame heap

theorem Books.of_same {a : Address} {x : Account} (books : Books m a x) (hm : m.heap.Sound)
    (same : SameChannel m.heap k.heap a)
    (hqueue : k.queue (.channel .sender a) = m.queue (.channel .sender a)) : Books k a x where
  ring := books.ring.congr_word (hm.channel_bounds same.inUse same.tag).1 same.word
  slots := (same.word 1 (by decide) (by decide)).trans books.slots
  unbuffered := same.unbuffered.trans books.unbuffered
  senders := hqueue.trans books.senders

/-! ## Deals -/

section Deals

variable {a v : Address} {x : Account}

/-- A channel with room holds less than it can, and an unbuffered one holds nothing. -/
theorem Books.lt_of_room (books : Books m a x) (fair : x.Fair) (room : m.heap.isFull a = false) :
    x.held.length < x.slots := by
  have hfull := books.ring.isFull_iff
  rw [room, List.length_map, books.slots] at hfull
  exact Nat.lt_of_le_of_ne fair.fits fun heq => Bool.false_ne_true (hfull.2 heq)

theorem Books.of_full (books : Books m a x) (full : m.heap.isFull a = true) :
    x.held.length = x.slots := by
  have hfull := books.ring.isFull_iff.1 full
  rwa [List.length_map, books.slots] at hfull

theorem Books.of_empty (books : Books m a x) (empty : m.heap.isEmpty a = true) : x.held = [] := by
  have hnil := books.ring.isEmpty_iff.1 empty
  rwa [List.map_eq_nil_iff] at hnil

/-- A channel that is not empty delivers the oldest value that it holds. -/
theorem Books.of_taken (books : Books m a x) (taken : m.heap.isEmpty a = false) :
    ∃ t rest, x.held = (t, m.heap.channelFront a) :: rest := by
  cases hheld : x.held with
  | nil =>
    have hempty := books.ring.isEmpty_iff
    rw [taken, hheld] at hempty
    exact absurd (hempty.2 rfl) Bool.false_ne_true
  | cons first rest =>
    have hring := books.ring
    rw [hheld, List.map_cons] at hring
    exact ⟨first.1, rest, by rw [hring.front rfl]⟩

/-- A new channel has a new account. -/
theorem books_new {capacity : Nat}
    (holds : k.heap.Holds a (Heap.channelHeader capacity) (Heap.emptyRing (max capacity 1)))
    (hqueue : k.queue (.channel .sender a) = []) : Books k a (.new capacity) := by
  obtain ⟨hslots, hring⟩ := Heap.ring_nil (Nat.lt_of_lt_of_le Nat.one_pos (Nat.le_max_right ..)) holds
  refine ⟨hring, hslots, ?_, ?_⟩
  · exact Heap.isUnbuffered_eq (by decide) (congrArg Header.payload holds.header)
  · rw [hqueue]
    split <;> rfl

/-- The account of a channel that accepts a value. -/
theorem Books.accept (books : Books m a x) (fair : x.Fair) (hm : m.Sound) {rest : List Address}
    {checked : Heap} (stack : m.registers.stack = v :: a :: rest) (tag : m.heap.tag a = .channel)
    (room : m.heap.isFull a = false) (check : Checked m.heap checked m.typedChannels a v)
    (heap : k.heap = checked.channelPush a v)
    (hqueue : k.queue (.channel .sender a) = m.queue (.channel .sender a) ++
      if m.heap.isUnbuffered a then [m.current] else []) :
    Books k a (x.accept m.current v) := by
  have hin := hm.inUse_below stack
  have hvin := hm.inUse_top stack
  have hblock := check.isBlock hin.toIsBlock
  obtain ⟨hle, hwrite, -⟩ := hm.heap.channel_bounds hin tag
  have hlt := books.lt_of_room fair room
  have hslots : checked.channelSlots a = m.heap.channelSlots a :=
    check.word hin.toIsBlock (by decide) (by decide)
  have hring := books.ring.congr_word hle fun i hpos hi => check.word hin.toIsBlock hpos hi
  obtain ⟨hslots', hring'⟩ := hring.push hblock (hslots.symm ▸ hle)
    (by rw [List.length_map, hslots, books.slots]; exact hlt)
    (hm.heap.toIntact.ne_vacant hvin.toIsBlock)
  have hunbuffered : k.heap.isUnbuffered a = m.heap.isUnbuffered a := by
    rw [heap, Heap.isUnbuffered_congr (Heap.header_channelPush hblock
      (check.writeSlot hin.toIsBlock ▸ by omega) v)]
    exact check.isUnbuffered hin.toIsBlock
  refine ⟨?_, ?_, hunbuffered.trans books.unbuffered, ?_⟩
  · rw [fair.held_accept, List.map_append, heap]
    exact hring'
  · rw [heap, hslots', hslots, books.slots]
    rfl
  · rw [hqueue, books.senders, books.unbuffered, fair.held_accept, List.map_append]
    by_cases hzero : x.capacity = 0
    · simp [hzero, Account.accept]
    · simp [hzero, Account.accept]

/-- The account of a channel that delivers a value. -/
theorem Books.deliver (books : Books m a x) (hm : m.Sound)
    {rest : List Address} (stack : m.registers.stack = a :: rest) (tag : m.heap.tag a = .channel)
    {t : ThreadId} {others : List (ThreadId × Address)} (hheld : x.held = (t, v) :: others)
    (heap : k.heap = m.heap.channelPop a)
    (hqueue : k.queue (.channel .sender a) = if m.heap.isUnbuffered a then
      (m.queue (.channel .sender a)).tail else m.queue (.channel .sender a)) :
    Books k a (x.deliver v) := by
  have hin := hm.inUse_top stack
  obtain ⟨hle, -, hread⟩ := hm.heap.channel_bounds hin tag
  have hring := books.ring
  rw [hheld, List.map_cons] at hring
  obtain ⟨hslots, hring'⟩ := hring.pop hin.toIsBlock hle
  have hunbuffered : k.heap.isUnbuffered a = m.heap.isUnbuffered a := by
    rw [heap]
    exact Heap.isUnbuffered_congr (Heap.header_channelPop hin.toIsBlock (by omega))
  refine ⟨?_, ?_, hunbuffered.trans books.unbuffered, ?_⟩
  · rw [Account.held_deliver, hheld, heap]
    exact hring'
  · rw [heap, hslots, books.slots]
    rfl
  · rw [hqueue, books.senders, books.unbuffered, Account.held_deliver, hheld]
    by_cases hzero : x.capacity = 0
    · simp [hzero, Account.deliver]
    · simp [hzero, Account.deliver]

end Deals

/-! ## All instructions -/

/-- The account of a channel after a deal. -/
theorem Acts.entered {x : Deal} (acts : Acts program m k p (some x)) (hm : m.Sound)
    (booked : Booked m l) :
    ∃ y, l.enter (some x) x.channel = some y ∧ y.Fair ∧ Books k x.channel y := by
  cases acts with
  | @madeChannel a capacity _ le _ _ _ _ holds requeues =>
    exact ⟨.new capacity, Ledger.set_self .., Account.fair_new le,
      books_new holds (requeues.queue_of_all (Place.mem_ofChannel .sender a))⟩
  | @sent v a _ _ _ stack tag room _ check heap _ requeues =>
    have hin := hm.inUse_below stack
    obtain ⟨y, hy, books⟩ := booked.books a hin tag
    have fair := booked.fair a y hy
    refine ⟨y.accept m.current v, ?_, fair.accept (books.lt_of_room fair room),
      books.accept fair hm stack tag room check heap ?_⟩
    · rw [Ledger.enter, Deal.channel, Ledger.set_self, hy]
      rfl
    · rw [requeues.queue]
      cases m.heap.isUnbuffered a <;> simp [oneFrom]
  | @received a _ _ stack tag taken _ heap _ requeues =>
    have hin := hm.inUse_top stack
    obtain ⟨y, hy, books⟩ := booked.books a hin tag
    obtain ⟨t, others, hheld⟩ := books.of_taken taken
    refine ⟨y.deliver (m.heap.channelFront a), ?_, (booked.fair a y hy).deliver hheld,
      books.deliver hm stack tag hheld heap ?_⟩
    · rw [Ledger.enter, Deal.channel, Ledger.set_self, hy]
      rfl
    · rw [requeues.queue]
      cases m.heap.isUnbuffered a <;> simp [oneFrom]

/-- An instruction keeps a ledger right if its deal is entered. -/
theorem Acts.booked (acts : Acts program m k p d) (hm : m.Sound) (booked : Booked m l) :
    Booked k (l.enter d) := by
  obtain ⟨leave, woken, started, joins, shifts, passes⟩ := acts.passes hm
  have hqueue : ∀ a, (∀ x, d = some x → x.channel ≠ a) →
      k.queue (.channel .sender a) = m.queue (.channel .sender a) := by
    intro a hd
    refine shifts.requeues.queue_of_stay (passes.sender a hd) fun hjoins => ?_
    rcases passes.joined _ hjoins with ⟨-, hshut, -⟩ | ⟨b, v, hplace, hdeal, -⟩
    · exact hshut
    · cases hplace
      exact hd _ hdeal rfl
  have habout : ∀ a, ¬ (∀ x, d = some x → x.channel ≠ a) →
      ∃ y, l.enter d a = some y ∧ y.Fair ∧ Books k a y := by
    intro a hd
    simp only [Classical.not_forall, Classical.not_not] at hd
    obtain ⟨x, rfl, rfl⟩ := hd
    exact acts.entered hm booked
  constructor
  · intro a x hx
    by_cases hd : ∀ y, d = some y → y.channel ≠ a
    · exact booked.fair a x ((Ledger.enter_of_ne hd).symm.trans hx)
    · obtain ⟨y, hy, fair, -⟩ := habout a hd
      obtain rfl := Option.some.inj (hx.symm.trans hy)
      exact fair
  · intro a ha htag
    by_cases hd : ∀ y, d = some y → y.channel ≠ a
    · have same := acts.sameChannel hm ha htag hd
      obtain ⟨x, hx, books⟩ := booked.books a same.inUse same.tag
      exact ⟨x, (Ledger.enter_of_ne hd).trans hx, books.of_same hm.heap same (hqueue a hd)⟩
    · obtain ⟨y, hy, -, books⟩ := habout a hd
      exact ⟨y, hy, books⟩

/-! ## Senders that wait -/

/-- The sender of an unbuffered channel waits alone, and its value is all that the channel holds. -/
theorem Books.of_sender {a : Address} {x : Account} {t : ThreadId} (books : Books m a x)
    (fair : x.Fair) (ht : t ∈ m.queue (.channel .sender a)) :
    x.capacity = 0 ∧ m.queue (.channel .sender a) = [t] ∧ ∃ v, x.held = [(t, v)] := by
  have hsenders := books.senders
  rw [hsenders] at ht
  split at ht
  next hzero =>
    have hfits := fair.fits
    have hslots : x.slots = 1 := by rw [Account.slots, hzero]; rfl
    rw [hslots] at hfits
    rw [if_pos hzero] at hsenders
    match hheld : x.held, hfits, ht with
    | [(u, v)], _, ht =>
      obtain rfl := List.mem_singleton.1 ht
      exact ⟨hzero, hsenders.trans (by rw [hheld]; rfl), v, rfl⟩
  next => cases ht

/-- What becomes of a sender that waits when something happens to its channel: the channel is made
anew, because nobody knew the old one, or its value is delivered and it is woken. -/
theorem Acts.of_sender {x : Deal} (acts : Acts program m k p (some x)) (hm : m.Sound)
    (booked : Booked m l) {t : ThreadId} {v : Address} {y : Account}
    (ht : t ∈ m.queue (.channel .sender x.channel)) (hy : l x.channel = some y)
    (hlast : y.sent.getLast? = some (t, v)) :
    ((∃ capacity, x = .made x.channel capacity) ∧ ¬ m.heap.Live m.roots x.channel ∧
      k.runnable = m.runnable ∧ k.queue (.channel .sender x.channel) = []) ∨
    ∃ u, x = .received u x.channel v ∧ t ∈ k.runnable := by
  have hbooks : ∀ a, x.channel = a → m.heap.InUse a → m.heap.tag a = .channel →
      Books m a y ∧ y.capacity = 0 ∧ m.queue (.channel .sender a) = [t] ∧ y.held = [(t, v)] := by
    rintro a rfl hin htag
    obtain ⟨z, hz, books⟩ := booked.books _ hin htag
    obtain rfl := Option.some.inj (hy.symm.trans hz)
    obtain ⟨hzero, hqueue, w, hheld⟩ := books.of_sender (booked.fair _ _ hy) ht
    have heq := hlast.symm.trans (Account.getLast?_sent hheld)
    simp only [Option.some.injEq, Prod.mk.injEq, true_and] at heq
    exact ⟨books, hzero, hqueue, heq ▸ hheld⟩
  cases acts with
  | @madeChannel a capacity _ _ _ notLive _ _ _ requeues =>
    exact .inl ⟨⟨capacity, rfl⟩, notLive, requeues.runnable.trans (List.append_nil _),
      requeues.queue_of_all (Place.mem_ofChannel .sender a)⟩
  | @sent w a _ _ _ stack tag room =>
    have hin := hm.inUse_below stack
    obtain ⟨books, hzero, -, hheld⟩ := hbooks a rfl hin tag
    have hlt := books.lt_of_room (booked.fair a y hy) room
    have hslots : y.slots = 1 := by rw [Account.slots, hzero]; rfl
    rw [hheld, hslots] at hlt
    exact absurd hlt (Nat.lt_irrefl 1)
  | @received a _ _ stack tag taken _ _ _ requeues =>
    have hin := hm.inUse_top stack
    obtain ⟨books, hzero, hqueue, hheld⟩ := hbooks a rfl hin tag
    obtain ⟨u, rest, hheld'⟩ := books.of_taken taken
    have heq := hheld.symm.trans hheld'
    simp only [List.cons.injEq, Prod.mk.injEq] at heq
    refine .inr ⟨m.current, ?_, ?_⟩
    · rw [heq.1.2]
      rfl
    · have hunbuffered : m.heap.isUnbuffered a = true := by rw [books.unbuffered, hzero]; rfl
      rw [requeues.runnable, if_pos hunbuffered, hqueue]
      simp

end Machine

end ChannelMachine
