import Mathlib.Logic.Function.Basic
import ChannelMachine.Proofs.Machine.Sparing
import ChannelMachine.Proofs.Source.Rooms

/-!
# What happened to the frames

A frame is made by the call of a function or by an instruction that opens a scope, and assignments write to
its slots.  A `Page` tells this of one frame.  A `Book` has a page for each address, which is begun anew
when another frame is made there, as may happen after a collection.  The book is no part of a machine:
`Machine.record` keeps it beside the machine, from one instruction to the next.

A frame is that of a room (`Room.Describes`) if the same made both, and it waits for the declarations that
are to come there (`Room.Awaits`) if no constant among them has been written.
-/

namespace ChannelMachine

open Source

/-! ## Pages -/

/-- What happened to a frame. -/
structure Page where
  /-- What made it. -/
  origin : Origin
  /-- The slots that were written and the indices of the instructions that wrote them, oldest first. -/
  writes : List (Nat × Nat)
deriving DecidableEq, Repr

namespace Page

/-- The instructions that wrote a slot, oldest first. -/
def writers (page : Page) (slot : Nat) : List Nat :=
  (page.writes.filter fun w => w.1 = slot).map Prod.snd

/-- A slot is written. -/
def written (page : Page) (slot pc : Nat) : Page :=
  { page with writes := page.writes ++ [(slot, pc)] }

theorem writers_blank (origin : Origin) (slot : Nat) : (Page.mk origin []).writers slot = [] := rfl

theorem writers_written (page : Page) (slot pc other : Nat) :
    (page.written slot pc).writers other =
      page.writers other ++ if slot = other then [pc] else [] := by
  unfold writers written
  rw [List.filter_append, List.map_append]
  by_cases h : slot = other <;> simp [h]

end Page

/-- The pages of the frames. -/
abbrev Book := Address → Page

namespace Book

/-- Nothing has happened yet. -/
def blank : Book := fun _ => ⟨.builtins, []⟩

/-- A frame is made. -/
def begun (book : Book) (frame : Address) (origin : Origin) : Book :=
  Function.update book frame ⟨origin, []⟩

/-- A slot of a frame is written. -/
def written (book : Book) (frame : Address) (slot pc : Nat) : Book :=
  Function.update book frame ((book frame).written slot pc)

variable {book : Book} {frame a : Address} {slot pc : Nat} {origin : Origin}

theorem begun_self : book.begun frame origin frame = ⟨origin, []⟩ := Function.update_self ..

theorem begun_of_ne (h : a ≠ frame) : book.begun frame origin a = book a := Function.update_of_ne h ..

theorem origin_written : (book.written frame slot pc a).origin = (book a).origin := by
  by_cases h : a = frame
  · rw [h, written, Function.update_self]
    rfl
  · rw [written, Function.update_of_ne h]

theorem written_of_ne (h : a ≠ frame) : book.written frame slot pc a = book a :=
  Function.update_of_ne h ..

theorem writers_written (other : Nat) : (book.written frame slot pc a).writers other =
    (book a).writers other ++ if a = frame ∧ slot = other then [pc] else [] := by
  by_cases h : a = frame
  · rw [h, written, Function.update_self, Page.writers_written]
    simp
  · rw [written_of_ne h, if_neg fun both => h both.1, List.append_nil]

end Book

namespace Machine

/-- The innermost frame of the running thread. -/
def innermost (m : Machine) : Address :=
  m.heap.word m.registers.environment (m.heap.frameCount m.registers.environment)

/-- The book after an instruction of the first machine that leads to the second one. -/
def record (program : Program) (m k : Machine) (book : Book) : Book :=
  let r := m.registers
  match program.at? r.pc with
  | some (.enterScope _) => book.begun k.innermost (.scope r.pc)
  | some (.call n) | some (.tailCall n) =>
      if m.callsFunction n then book.begun k.innermost .call else book
  | some (.store q) =>
      match m.heap.slotOf? r.environment q with
      | some (frame, _) => book.written frame q.slot r.pc
      | none => book
  | _ => book

end Machine

/-! ## Frames and rooms -/

section

variable {table : List Declaration} {book book' : Book} {room : Room} {frame : Address}

/-- A frame is that of a room, whose names are known. -/
structure Source.Room.Describes (table : List Declaration) (book : Book) (room : Room)
    (frame : Address) : Prop where
  /-- What made it. -/
  origin : (book frame).origin = room.origin
  /-- The names of a scope are declared. -/
  listed : ∀ start, room.origin = .scope start → Lists table start room.names
  /-- The builtins are not variables. -/
  builtins : room.origin = .builtins → ∀ x ∈ room.names, x.2 ≠ .variable

/-- No constant that is to be declared has been written. -/
def Source.Room.Awaits (table : List Declaration) (book : Book) (room : Room) (frame : Address) : Prop :=
  ∀ d ∈ table, room.origin = .scope d.start → room.passed ≤ d.slot → d.binding ≠ .variable →
    (book frame).writers d.slot = []

namespace Source.Room

theorem Describes.congr (describes : room.Describes table book frame)
    (horigin : (book' frame).origin = (book frame).origin) : room.Describes table book' frame :=
  { describes with origin := horigin.trans describes.origin }

/-- How many declarations are passed does not matter. -/
theorem Describes.of_eq {other : Room} (describes : room.Describes table book frame)
    (horigin : other.origin = room.origin) (hnames : other.names = room.names) :
    other.Describes table book frame where
  origin := describes.origin.trans horigin.symm
  listed := fun start h => hnames ▸ describes.listed start (horigin ▸ h)
  builtins := fun h => hnames ▸ describes.builtins (horigin ▸ h)

theorem Awaits.congr (awaits : room.Awaits table book frame) (describes : room.Describes table book frame)
    (spared : ∀ d ∈ table, d.binding ≠ .variable → (book frame).origin = .scope d.start →
      (book' frame).writers d.slot = (book frame).writers d.slot) : room.Awaits table book' frame :=
  fun d hd horigin hslot hbinding =>
    (spared d hd hbinding (describes.origin.trans horigin)).trans (awaits d hd horigin hslot hbinding)

theorem Awaits.ahead {other : Room} (awaits : room.Awaits table book frame) (ahead : room.Ahead other) :
    other.Awaits table book frame :=
  fun d hd horigin hslot => awaits d hd (ahead.origin ▸ horigin) (Nat.le_trans ahead.passed hslot)

end Source.Room

/-- The frames of an environment are those of some rooms. -/
def Heap.Houses (h : Heap) (table : List Declaration) (book : Book) (environment : Address)
    (rooms : List Room) : Prop :=
  List.Forall₂ (Room.Describes table book) rooms (h.framesOf environment).reverse

namespace Heap.Houses

variable {h k : Heap} {environment : Address} {rooms : List Room}

/-- The rooms are told by what made them and by their names. -/
theorem map (houses : h.Houses table book environment rooms) {f : Room → Room}
    (horigin : ∀ r, (f r).origin = r.origin) (hnames : ∀ r, (f r).names = r.names) :
    h.Houses table book environment (rooms.map f) :=
  List.forall₂_map_left_iff.2 (houses.imp fun r _ describes =>
    describes.of_eq (horigin r) (hnames r))

theorem ahead {rooms' : List Room} (houses : h.Houses table book environment rooms)
    (ahead : Room.AllAhead rooms rooms') : h.Houses table book environment rooms' := by
  unfold Houses at houses ⊢
  generalize (h.framesOf environment).reverse = frames at houses
  induction ahead generalizing frames with
  | nil => exact houses
  | cons head _ ih =>
    obtain ⟨frame, rest, describes, hrest, rfl⟩ := List.forall₂_cons_left_iff.1 houses
    exact .cons (describes.of_eq head.origin head.names) (ih _ hrest)

/-- The frames stay the same, and so does what made them. -/
theorem congr (houses : h.Houses table book environment rooms)
    (hframes : k.framesOf environment = h.framesOf environment)
    (horigin : ∀ a ∈ h.framesOf environment, (book' a).origin = (book a).origin) :
    k.Houses table book' environment rooms := by
  unfold Houses at houses ⊢
  rw [hframes]
  refine (List.forall₂_iff_zip.2 ⟨houses.length_eq, fun hmem => ?_⟩)
  have hframe := List.mem_reverse.1 (List.of_mem_zip hmem).2
  exact (List.forall₂_iff_zip.1 houses |>.2 hmem).congr (horigin _ hframe)

/-- The frame at a position is that of the room at the position. -/
theorem describes (houses : h.Houses table book environment rooms) {q : Position} {frame : Address}
    {i : Nat} (hslot : h.slotOf? environment q = some (frame, i)) {room : Room}
    (hroom : rooms.reverse[q.frame]? = some room) : room.Describes table book frame := by
  have hframe := (Heap.of_slotOf?_eq hslot).1
  obtain ⟨hlt, heq⟩ := List.getElem?_eq_some_iff.1 hroom
  obtain ⟨hlt', heq'⟩ := List.getElem?_eq_some_iff.1 hframe
  have hreverse := List.forall₂_reverse_iff.2 houses
  rw [List.reverse_reverse] at hreverse
  have hdescribes := hreverse.get hlt hlt'
  rwa [List.get_eq_getElem, List.get_eq_getElem, heq, heq'] at hdescribes

end Heap.Houses

end

end ChannelMachine
