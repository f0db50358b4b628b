import ChannelMachine.Proofs.Machine.Initial
import ChannelMachine.Proofs.Machine.Pages
import ChannelMachine.Proofs.Source.Lexical

/-!
# Threads live in rooms

The frames that a thread sees are those of the rooms that the layout knows at its next instruction
(`Lodged`).  The scopes that the thread opened, and that it has not closed, are its own: no other thread
opened them, and nothing else executes their declarations.  Those frames are listed as they are `held`.

A function that a thread runs sees other frames, which are those around where the function was made.  No
declarations are to come in them, as far as this thread is concerned.

The invariant of a heap is that each function fits the layout, that a slot of a scope that was not written
is unassigned, and that no constant was written twice (`Heap.Lodges`).
-/

namespace ChannelMachine

open Source

/-! ## Threads -/

/-- The frames that a thread sees from an environment and will see when it goes back are those of rooms.
The ones in which declarations are to come are held, innermost first. -/
inductive Lodged (layout : Layout) (table : List Declaration) (book : Book) (h : Heap) :
    (environment : Address) → (frames : List Address) → (rooms : List Room) →
      (held : List Address) → Prop where
  /-- Outside of functions and of scopes. -/
  | outer {environment : Address} {rooms : List Room}
      (houses : h.Houses table book environment rooms) (settled : ∀ r ∈ rooms, r.Settled) :
      Lodged layout table book h environment [] rooms []
  /-- In a scope that the thread opened. -/
  | block {environment outside a frame : Address} {frames held : List Address} {room : Room}
      {rooms : List Room} (rest : Lodged layout table book h outside frames rooms held)
      (tag : h.tag a = .blockframe) (link : h.word a 1 = outside)
      (inside : h.framesOf environment = h.framesOf outside ++ [frame])
      (describes : room.Describes table book frame) (awaits : room.Awaits table book frame) :
      Lodged layout table book h environment (a :: frames) (room :: rooms) (frame :: held)
  /-- In a function.  Where it returns to, the rooms are those of the caller. -/
  | call {environment outside a : Address} {frames held : List Address} {φ : Site}
      {rooms : List Room} (rest : Lodged layout table book h outside frames φ.rooms held)
      (tag : h.tag a = .callframe) (link : h.word a 1 = outside)
      (resume : layout (h.payload a).toNat = some φ)
      (houses : h.Houses table book environment rooms) (settled : ∀ r ∈ rooms, r.Settled) :
      Lodged layout table book h environment (a :: frames) rooms held

namespace Lodged

variable {layout : Layout} {table : List Declaration} {book book' : Book} {h k : Heap}
  {environment : Address} {frames held roots : List Address} {rooms : List Room} {room : Room}

theorem houses (lodged : Lodged layout table book h environment frames rooms held) :
    h.Houses table book environment rooms := by
  induction lodged with
  | outer houses _ => exact houses
  | block _ _ _ inside describes _ ih =>
    rw [Heap.Houses, inside, List.reverse_append]
    exact .cons describes ih
  | call _ _ _ _ houses _ _ => exact houses

/-- More declarations may be passed. -/
theorem ahead (lodged : Lodged layout table book h environment frames rooms held) :
    ∀ {rooms' : List Room}, Room.AllAhead rooms rooms' →
      Lodged layout table book h environment frames rooms' held := by
  have hsettled : ∀ {rooms rooms' : List Room}, (∀ r ∈ rooms, r.Settled) →
      Room.AllAhead rooms rooms' → ∀ r ∈ rooms', r.Settled := by
    intro rooms rooms' settled ahead
    induction ahead with
    | nil => exact settled
    | cons head _ ih =>
      obtain ⟨first, others⟩ := List.forall_mem_cons.1 settled
      exact List.forall_mem_cons.2 ⟨head.settled first, ih others⟩
  induction lodged with
  | outer houses settled => exact fun ahead => .outer (houses.ahead ahead) (hsettled settled ahead)
  | block _ tag link inside describes awaits ih =>
    intro rooms' ahead
    obtain ⟨room', others, head, tail, rfl⟩ := List.forall₂_cons_left_iff.1 ahead
    exact .block (ih tail) tag link inside (describes.of_eq head.origin head.names)
      (awaits.ahead head)
  | call rest tag link resume houses settled _ =>
    exact fun ahead => .call rest tag link resume (houses.ahead ahead) (hsettled settled ahead)

/-- A declaration that is to come is one of a scope that the thread holds. -/
theorem innermost (lodged : Lodged layout table book h environment frames (room :: rooms) held)
    (unsettled : ¬ room.Settled) : ∃ a frame rest held', frames = a :: rest ∧ held = frame :: held' ∧
      h.tag a = .blockframe ∧ h.framesOf environment = h.framesOf (h.word a 1) ++ [frame] ∧
      room.Describes table book frame ∧ room.Awaits table book frame ∧
      Lodged layout table book h (h.word a 1) rest rooms held' := by
  cases lodged with
  | outer _ settled => exact absurd (settled room List.mem_cons_self) unsettled
  | block rest tag link inside describes awaits =>
    obtain rfl := link
    exact ⟨_, _, _, _, rfl, rfl, tag, inside, describes, awaits, rest⟩
  | call _ _ _ _ _ settled => exact absurd (settled room List.mem_cons_self) unsettled

/-- Scopes are closed. -/
theorem closing {n : Nat} {outside : Address} {rest : List Address}
    (lodged : Lodged layout table book h environment frames rooms held)
    (hclosing : h.closing? n environment frames = some (outside, rest)) :
    ∃ held', held' <:+ held ∧ Lodged layout table book h outside rest (rooms.drop n) held' := by
  induction n generalizing environment frames rooms held with
  | zero =>
    obtain ⟨rfl, rfl⟩ := Prod.mk.inj (Option.some.inj hclosing)
    exact ⟨held, List.suffix_rfl, lodged⟩
  | succ n ih =>
    cases lodged with
    | outer => cases hclosing
    | block inner tag link =>
      obtain rfl := link
      rw [Heap.closing?, if_pos tag] at hclosing
      obtain ⟨held', hsuffix, hlodged⟩ := ih inner hclosing
      exact ⟨held', hsuffix.trans (List.suffix_cons ..), hlodged⟩
    | call _ tag =>
      rw [Heap.closing?, if_neg (by rw [tag]; decide)] at hclosing
      cases hclosing

/-- A function returns. -/
theorem returning {pc : Nat} {outside : Address} {rest : List Address}
    (lodged : Lodged layout table book h environment frames rooms held)
    (hreturning : h.returning? frames = some (pc, outside, rest)) :
    ∃ φ held', held' <:+ held ∧ layout pc = some φ ∧
      Lodged layout table book h outside rest φ.rooms held' := by
  unfold Heap.returning? at hreturning
  induction lodged with
  | outer => cases hreturning
  | block _ tag _ _ _ _ ih =>
    rw [List.dropWhile_cons_of_pos (by simp [tag])] at hreturning
    obtain ⟨φ, held', hsuffix, hφ, hlodged⟩ := ih hreturning
    exact ⟨φ, held', hsuffix.trans (List.suffix_cons ..), hφ, hlodged⟩
  | call caller tag link resume =>
    rw [List.dropWhile_cons_of_neg (by simp [tag])] at hreturning
    obtain ⟨rfl, heq⟩ := Prod.mk.inj (Option.some.inj hreturning)
    obtain ⟨rfl, rfl⟩ := Prod.mk.inj heq
    obtain rfl := link
    exact ⟨_, _, List.suffix_rfl, resume, caller⟩

/-- A function is replaced by another one. -/
theorem replacing {inside : Address} {rooms' : List Room}
    (lodged : Lodged layout table book h environment frames rooms held)
    (houses : h.Houses table book inside rooms') (settled : ∀ r ∈ rooms', r.Settled) :
    ∃ held', held' <:+ held ∧ Lodged layout table book h inside
      (frames.dropWhile fun a => h.tag a = .blockframe) rooms' held' := by
  induction lodged with
  | outer => exact ⟨[], List.suffix_rfl, .outer houses settled⟩
  | block _ tag _ _ _ _ ih =>
    rw [List.dropWhile_cons_of_pos (by simp [tag])]
    obtain ⟨held', hsuffix, hlodged⟩ := ih
    exact ⟨held', hsuffix.trans (List.suffix_cons ..), hlodged⟩
  | call caller tag link resume =>
    rw [List.dropWhile_cons_of_neg (by simp [tag])]
    exact ⟨_, List.suffix_rfl, .call caller tag link resume houses settled⟩

section Keeping

variable (hs : h.Sound) (hroots : ∀ a ∈ roots, h.InUse a)

include hs hroots

/-- What is held is live. -/
theorem live_held (lodged : Lodged layout table book h environment frames rooms held)
    (hlive : h.Live roots environment) (htag : h.tag environment = .environment)
    (hframes : ∀ a ∈ frames, h.Live roots a) : ∀ a ∈ held, h.Live roots a := by
  induction lodged with
  | outer => exact fun _ h => absurd h List.not_mem_nil
  | block _ tag link inside _ _ ih =>
    obtain ⟨hlive', hframes'⟩ := List.forall_mem_cons.1 hframes
    have hin := hs.inUse_of_live hroots hlive'
    obtain rfl := link
    refine List.forall_mem_cons.2 ⟨?_, ih (hs.live_block hin (.inl tag) hlive')
      (hs.word_block hin (.inl tag)).2 hframes'⟩
    refine (hs.live_framesOf hroots hlive htag _ ?_).1
    rw [inside]
    exact List.mem_append_right _ (List.mem_singleton_self _)
  | call _ tag link _ _ _ ih =>
    obtain ⟨hlive', hframes'⟩ := List.forall_mem_cons.1 hframes
    have hin := hs.inUse_of_live hroots hlive'
    obtain rfl := link
    exact ih (hs.live_block hin (.inr tag) hlive') (hs.word_block hin (.inr tag)).2 hframes'

/-- The frames that are seen from a live environment stay the same. -/
theorem framesOf_steady (steady : h.Steady k roots) (hlive : h.Live roots environment)
    (htag : h.tag environment = .environment) :
    k.framesOf environment = h.framesOf environment :=
  ((steady.same environment hlive (by rw [htag]; rfl)).framesOf
    (hs.typed environment (hs.inUse_of_live hroots hlive)).le).2

/-- A thread stays in a scope that it opened if it stays in the rooms around. -/
theorem keep_block {a frame : Address} (tag : h.tag a = .blockframe)
    (inside : h.framesOf environment = h.framesOf (h.word a 1) ++ [frame])
    (steady : h.Steady k roots) (hlive : h.Live roots environment)
    (htag : h.tag environment = .environment) (ha : h.Live roots a)
    (rest : Lodged layout table book' k (h.word a 1) frames rooms held)
    (describes : room.Describes table book' frame) (awaits : room.Awaits table book' frame) :
    Lodged layout table book' k environment (a :: frames) (room :: rooms) (frame :: held) := by
  have hin := hs.inUse_of_live hroots ha
  have same := steady.same a ha (by rw [tag]; rfl)
  refine .block rest (same.tag.trans tag) (same.word 1 (by decide) (by decide)) ?_ describes awaits
  rw [framesOf_steady hs hroots steady hlive htag, inside, framesOf_steady hs hroots steady
    (hs.live_block hin (.inl tag) ha) (hs.word_block hin (.inl tag)).2]

/-- A thread stays in its rooms, whatever is done to other frames. -/
theorem keep (lodged : Lodged layout table book h environment frames rooms held)
    (steady : h.Steady k roots) (hlive : h.Live roots environment)
    (htag : h.tag environment = .environment) (hframes : ∀ a ∈ frames, h.Live roots a)
    (horigin : ∀ a, h.Live roots a → (book' a).origin = (book a).origin)
    (spared : ∀ a ∈ held, ∀ d ∈ table, d.binding ≠ .variable → (book a).origin = .scope d.start →
      (book' a).writers d.slot = (book a).writers d.slot) :
    Lodged layout table book' k environment frames rooms held := by
  have hhouses : ∀ {environment rooms}, h.Live roots environment → h.tag environment = .environment →
      h.Houses table book environment rooms → k.Houses table book' environment rooms :=
    fun hlive htag houses => houses.congr (framesOf_steady hs hroots steady hlive htag)
      fun a ha => horigin a (hs.live_framesOf hroots hlive htag a ha).1
  induction lodged with
  | outer houses settled => exact .outer (hhouses hlive htag houses) settled
  | @block _ _ b frame _ _ _ _ _ tag link inside describes awaits ih =>
    obtain ⟨hb, hframes'⟩ := List.forall_mem_cons.1 hframes
    obtain ⟨hspared, hspared'⟩ := List.forall_mem_cons.1 spared
    have hin := hs.inUse_of_live hroots hb
    obtain rfl := link
    have hframe : h.Live roots frame := by
      refine (hs.live_framesOf hroots hlive htag _ ?_).1
      rw [inside]
      exact List.mem_append_right _ (List.mem_singleton_self _)
    exact keep_block hs hroots tag inside steady hlive htag hb
      (ih (hs.live_block hin (.inl tag) hb) (hs.word_block hin (.inl tag)).2 hframes' hspared')
      (describes.congr (horigin frame hframe)) (awaits.congr describes hspared)
  | @call _ _ b _ _ _ _ _ tag link resume houses settled ih =>
    obtain ⟨hb, hframes'⟩ := List.forall_mem_cons.1 hframes
    have hin := hs.inUse_of_live hroots hb
    have same := steady.same b hb (by rw [tag]; rfl)
    obtain rfl := link
    exact .call (ih (hs.live_block hin (.inr tag) hb) (hs.word_block hin (.inr tag)).2 hframes' spared)
      (same.tag.trans tag) (same.word 1 (by decide) (by decide)) (same.payload.symm ▸ resume)
      (hhouses hlive htag houses) settled

end Keeping

end Lodged

/-! ## Constants and functions -/

/-- No constant has been written but by its declaration, and no builtin has been written. -/
structure Kept (table : List Declaration) (book : Book) : Prop where
  /-- A constant has been written once, or it has not been written. -/
  once : ∀ a, ∀ d ∈ table, d.binding ≠ .variable → (book a).origin = .scope d.start →
    (book a).writers d.slot = [] ∨ (book a).writers d.slot = [d.index]
  /-- The builtins. -/
  builtins : ∀ a, (book a).origin = .builtins → (book a).writes = []

namespace Kept

variable {table : List Declaration} {book : Book} {frame : Address} {slot pc : Nat}

theorem begun (kept : Kept table book) {origin : Origin} (horigin : origin ≠ .builtins) :
    Kept table (book.begun frame origin) := by
  refine ⟨fun a d hd hbinding hscope => ?_, fun a hbuiltins => ?_⟩
  · by_cases ha : a = frame
    · rw [ha, Book.begun_self]
      exact .inl (Page.writers_blank _ _)
    · rw [Book.begun_of_ne ha] at hscope ⊢
      exact kept.once a d hd hbinding hscope
  · by_cases ha : a = frame
    · rw [ha, Book.begun_self] at hbuiltins
      exact absurd hbuiltins horigin
    · rw [Book.begun_of_ne ha] at hbuiltins ⊢
      exact kept.builtins a hbuiltins

/-- A variable is written, or the declaration of a constant is executed for the first time. -/
theorem written (kept : Kept table book) (hbuiltins : (book frame).origin ≠ .builtins)
    (hwrite : ∀ d ∈ table, d.binding ≠ .variable → (book frame).origin = .scope d.start →
      d.slot = slot → (book frame).writers slot = [] ∧ d.index = pc) :
    Kept table (book.written frame slot pc) := by
  refine ⟨fun a d hd hbinding hscope => ?_, fun a ha => ?_⟩
  · rw [Book.origin_written] at hscope
    rw [Book.writers_written]
    split
    next heq =>
      obtain ⟨rfl, hslot⟩ := heq
      obtain ⟨hnone, hindex⟩ := hwrite d hd hbinding hscope hslot.symm
      rw [← hslot, hnone, hindex]
      exact .inr rfl
    next =>
      rw [List.append_nil]
      exact kept.once a d hd hbinding hscope
  · rw [Book.origin_written] at ha
    have hne : a ≠ frame := by
      rintro rfl
      exact hbuiltins ha
    rw [Book.written_of_ne hne]
    exact kept.builtins a ha

end Kept

/-- A function fits the layout where it was made. -/
def Heap.FunctionLodged (layout : Layout) (table : List Declaration) (book : Book) (h : Heap)
    (entry : Nat) (environment : Address) : Prop :=
  ∃ φ names, layout entry = some (Site.entry φ names) ∧ h.Houses table book environment φ.rooms

/-- The functions and the frames of a heap fit a layout. -/
structure Heap.Lodges (layout : Layout) (table : List Declaration) (book : Book) (h : Heap)
    (roots : List Address) : Prop extends Kept table book where
  /-- The frame of the builtins is permanent. -/
  permanent : Heap.globalFrame < h.bottom
  /-- It is there from the start. -/
  global : (book Heap.globalFrame).origin = .builtins
  /-- A slot of a scope that was not written is unassigned. -/
  unwritten : ∀ a, h.Live roots a → h.tag a = .frame → ∀ start slot,
    (book a).origin = .scope start → (book a).writers slot = [] → slot + 1 < h.size a →
      h.word a (slot + 1) = Heap.unassigned
  /-- The functions. -/
  functions : ∀ a, h.Live roots a → h.tag a = .closure →
    h.FunctionLodged layout table book (h.payload a).toNat (h.word a 2)

/-- A thread is lodged where it is. -/
def Registers.Lodged (layout : Layout) (table : List Declaration) (book : Book) (h : Heap)
    (r : Registers) (held : List Address) : Prop :=
  ∃ φ, layout r.pc = some φ ∧
    ChannelMachine.Lodged layout table book h r.environment r.frames φ.rooms held

/-- All threads are lodged, the running one, which has no number here, and the others.  No frame is held
twice. -/
structure Lodgings (layout : Layout) (table : List Declaration) (book : Book)
    (held : Option ThreadId → List Address) (h : Heap) (roots : List Address)
    (threads : Option ThreadId → Option Registers) : Prop extends h.Lodges layout table book roots where
  /-- The threads. -/
  lodged : ∀ t r, threads t = some r → r.Lodged layout table book h (held t)
  /-- A thread holds a frame once. -/
  nodup : ∀ t r, threads t = some r → (held t).Nodup
  /-- Different threads hold different frames. -/
  apart : ∀ t u r s, t ≠ u → threads t = some r → threads u = some s →
    (held t).Disjoint (held u)

/-! ## Heaps after an effect -/

namespace Machine

variable {layout : Layout} {table : List Declaration} {book book' : Book} {program : Program}
  {m k : Machine} {e : Effect} {f : Nat → Address} {i : Instruction}

/-- The functions and the frames fit the layout after an effect. -/
theorem Realizes.lodges (realizes : Realizes m k e f) (hm : m.Sound)
    (he : m.effectOf? program i = some e) (lodges : m.heap.Lodges layout table book m.roots)
    (kept : Kept table book')
    (horigin : ∀ a, m.heap.Live m.roots a → (book' a).origin = (book a).origin)
    (hwritten : ∀ a, m.heap.Live m.roots a → m.heap.tag a = .frame → ∀ slot,
      (book' a).writers slot = [] → (book a).writers slot = [] ∧ ¬ e.Writes a (slot + 1))
    (hframes : ∀ (j : Nat) (header : Header) (words : List Ref),
      e.made[j]? = some (.node header words) → header.tag = .frame → ∀ start,
      (book' (f j)).origin = .scope start → ∀ r ∈ words, r = .known Heap.unassigned)
    (hfunctions : ∀ (j : Nat) (header : Header) (words : List Ref),
      e.made[j]? = some (.node header words) → header.tag = .closure →
      ∃ environment, words[1]? = some (.known environment) ∧ m.heap.Live m.roots environment ∧
        m.heap.tag environment = .environment ∧
        m.heap.FunctionLodged layout table book header.payload.toNat environment) :
    k.heap.Lodges layout table book' k.roots := by
  have u := realizes.heap
  have steady := realizes.steady hm he
  have hlodged : ∀ {entry environment}, m.heap.Live m.roots environment →
      m.heap.tag environment = .environment →
      m.heap.FunctionLodged layout table book entry environment →
      k.heap.FunctionLodged layout table book' entry environment := by
    rintro entry environment hlive htag ⟨φ, names, hentry, houses⟩
    exact ⟨φ, names, hentry, houses.congr
      (Lodged.framesOf_steady hm.heap hm.inUse_root steady hlive htag)
      fun a ha => horigin a (hm.heap.live_framesOf hm.inUse_root hlive htag a ha).1⟩
  refine ⟨kept, u.bottom ▸ lodges.permanent, (horigin _ ?_).trans lodges.global,
    fun a ha htag start slot hscope hnone hlt => ?_, fun a ha htag => ?_⟩
  · exact .permanent hm.heap.toIntact (Heap.addressOf_mod 5) lodges.permanent
  · rcases realizes.live_or_made hm ha with hlive | ⟨j, hj, rfl⟩
    · rw [u.tag hlive] at htag
      rw [u.size hlive] at hlt
      rw [horigin a hlive] at hscope
      obtain ⟨hnone', hnot⟩ := hwritten a hlive htag slot hnone
      have hle := (hm.heap.typed a (hm.inUse_of_live hlive)).le
      rw [u.word_of_not hlive (Nat.le_add_left ..) (Nat.lt_of_lt_of_le hlt hle) hnot]
      exact lodges.unwritten a hlive htag start slot hscope hnone' hlt
    · obtain ⟨b, hb⟩ : ∃ b, e.made[j]? = some b := ⟨_, List.getElem?_eq_getElem hj⟩
      cases b with
      | node header words =>
        have new := u.node j header words hb
        rw [Heap.tag, new.header] at htag
        rw [Heap.size, new.header] at hlt
        have hrange := realizes.toAffords.range header words (List.mem_of_getElem? hb)
        have hchildren : header.childRange = (1, header.size.toNat) := by
          rw [Header.childRange, htag]
        rw [hchildren] at hrange
        obtain ⟨r, hr⟩ : ∃ r, words[slot]? = some r :=
          ⟨_, List.getElem?_eq_getElem (Nat.lt_of_succ_lt_succ (Nat.lt_of_lt_of_le hlt hrange))⟩
        obtain rfl := hframes j header words hb htag start hscope r (List.mem_of_getElem? hr)
        exact new.word slot _ (by rw [List.getElem?_map, hr]; rfl)
      | text s =>
        rw [(u.string j s hb).2.1] at htag
        cases htag
  · rcases realizes.live_or_made hm ha with hlive | ⟨j, hj, rfl⟩
    · rw [u.tag hlive] at htag
      have same := steady.same a hlive (by rw [htag]; rfl)
      obtain ⟨htag', hlive'⟩ := hm.heap.word_closure (hm.inUse_of_live hlive) htag
      rw [same.payload, same.word 2 (by decide) (by decide)]
      exact hlodged (hlive' _ hlive) htag' (lodges.functions a hlive htag)
    · obtain ⟨b, hb⟩ : ∃ b, e.made[j]? = some b := ⟨_, List.getElem?_eq_getElem hj⟩
      cases b with
      | node header words =>
        have new := u.node j header words hb
        rw [Heap.tag, new.header] at htag
        obtain ⟨environment, henv, hlive, henvTag, lodged⟩ := hfunctions j header words hb htag
        have hword : k.heap.word (f j) 2 = environment :=
          new.word 1 environment (by rw [List.getElem?_map, henv]; rfl)
        rw [Heap.payload, new.header, hword]
        exact hlodged hlive henvTag lodged
      | text s =>
        rw [(u.string j s hb).2.1] at htag
        cases htag

end Machine

end ChannelMachine
