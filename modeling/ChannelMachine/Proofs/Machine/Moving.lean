import Mathlib.Algebra.Group.Nat.Defs
import ChannelMachine.Proofs.Machine.Lodging
import ChannelMachine.Proofs.Source.Distinct

/-!
# Threads move between rooms

Each instruction of laid out code takes a running thread from the rooms at its index to those at the index
where it goes on, and the other threads stay where they are (`LaidOut.lodgings_step`).  The cases are those
of `Leads`.  A call and the opening of a scope make a frame that no thread holds, and an assignment writes
a variable or executes the next declaration in the innermost room of the thread.
-/

namespace ChannelMachine

open Source

namespace Machine

/-- The registers of the running thread and of the others. -/
def thread? (m : Machine) : Option ThreadId → Option Registers
  | none => some m.registers
  | some t => m.threads[t]?

variable {layout : Layout} {table : List Declaration} {book book' : Book} {program : Program}
  {m k : Machine} {e : Effect} {f : Nat → Address} {i : Instruction}
  {held : Option ThreadId → List Address} {t : Option ThreadId} {r : Registers}

/-- What a thread uses is live. -/
theorem live_thread (hr : m.thread? t = some r) : ∀ a ∈ r.roots, m.heap.Live m.roots a := by
  intro a ha
  cases t with
  | none => exact Sound.live_root (Option.some.inj hr ▸ ha)
  | some t => exact .root (mem_threadRoots.2 (.inr ⟨t, r, hr, ha⟩))

theorem Sound.thread (hm : m.Sound) (hr : m.thread? t = some r) : r.Sound m.heap := by
  cases t with
  | none => exact Option.some.inj hr ▸ hm.registers
  | some t => exact hm.threads t r hr

/-- A thread holds live frames. -/
theorem Sound.live_held (hm : m.Sound) (lodged : r.Lodged layout table book m.heap (held t))
    (hr : m.thread? t = some r) : ∀ a ∈ held t, m.heap.Live m.roots a := by
  obtain ⟨φ, -, lodged⟩ := lodged
  have hlive := live_thread hr
  exact lodged.live_held hm.heap hm.inUse_root (hlive _ (Registers.mem_roots.2 (.inr (.inl rfl))))
    (hm.thread hr).tag fun a ha => hlive a (Registers.mem_roots.2 (.inr (.inr ha)))

/-- A thread that does not run stays in its rooms. -/
theorem Sound.keep_lodged (hm : m.Sound) {held : List Address}
    (lodged : r.Lodged layout table book m.heap held) (steady : m.heap.Steady k.heap m.roots)
    (hlive : ∀ a ∈ r.roots, m.heap.Live m.roots a) (htag : m.heap.tag r.environment = .environment)
    (horigin : ∀ a, m.heap.Live m.roots a → (book' a).origin = (book a).origin)
    (spared : ∀ a ∈ held, ∀ d ∈ table, d.binding ≠ .variable → (book a).origin = .scope d.start →
      (book' a).writers d.slot = (book a).writers d.slot) :
    r.Lodged layout table book' k.heap held := by
  obtain ⟨φ, hφ, lodged⟩ := lodged
  exact ⟨φ, hφ, lodged.keep hm.heap hm.inUse_root steady
    (hlive _ (Registers.mem_roots.2 (.inr (.inl rfl)))) htag
    (fun a ha => hlive a (Registers.mem_roots.2 (.inr (.inr ha)))) horigin spared⟩

/-- All threads are lodged after an effect if the running one is and the one that is started. -/
theorem Realizes.lodgings (realizes : Realizes m k e f) (hm : m.Sound)
    (he : m.effectOf? program i = some e)
    (lodgings : Lodgings layout table book held m.heap m.roots m.thread?)
    (heap : k.heap.Lodges layout table book' k.roots)
    (horigin : ∀ a, m.heap.Live m.roots a → (book' a).origin = (book a).origin)
    (spared : ∀ t r, m.thread? (some t) = some r → ∀ a ∈ held (some t), ∀ d ∈ table,
      d.binding ≠ .variable → (book a).origin = .scope d.start →
        (book' a).writers d.slot = (book a).writers d.slot)
    (self : ∃ new, k.registers.Lodged layout table book' k.heap new ∧ new.Nodup ∧
      ∀ a ∈ new, a ∈ held none ∨ ¬ m.heap.Live m.roots a)
    (started : ∀ r, e.started = some r → r.Lodged layout table book' k.heap []) :
    ∃ held', Lodgings layout table book' held' k.heap k.roots k.thread? := by
  obtain ⟨new, lodged, nodup, hnew⟩ := self
  have steady := realizes.steady hm he
  -- The other threads hold what they held before, and the one that is started holds nothing.
  let held' : Option ThreadId → List Address
    | none => new
    | some t => if k.threads[t]? = m.threads[t]? then held (some t) else []
  have hother : ∀ (t : ThreadId) r, k.threads[t]? = some r →
      m.thread? (some t) = some r ∧ held' (some t) = held (some t) ∨
        held' (some t) = [] ∧ e.started = some r := by
    intro t r hr
    by_cases heq : k.threads[t]? = m.threads[t]?
    · exact .inl ⟨heq.symm.trans hr, if_pos heq⟩
    · rcases realizes.thread hr with hr' | ⟨hstarted, -⟩
      · exact absurd (hr.trans hr'.symm) heq
      · exact .inr ⟨if_neg heq, hstarted⟩
  have hapart : ∀ (t : ThreadId) r, k.threads[t]? = some r → (held' (some t)).Disjoint new := by
    intro t r hr a ha hmem
    rcases hother t r hr with ⟨hr', heq⟩ | ⟨heq, -⟩
    · rw [heq] at ha
      rcases hnew a hmem with hold | hdead
      · exact lodgings.apart _ none r _ (Option.some_ne_none t) hr' rfl ha hold
      · exact hdead (hm.live_held (lodgings.lodged _ r hr') hr' a ha)
    · rw [heq] at ha
      cases ha
  refine ⟨held', heap, fun t r hr => ?_, fun t r hr => ?_, fun t u r s hne hr hs => ?_⟩
  · cases t with
    | none => exact Option.some.inj hr ▸ lodged
    | some t =>
      rcases hother t r hr with ⟨hr', heq⟩ | ⟨heq, hstarted⟩
      · rw [heq]
        exact hm.keep_lodged (lodgings.lodged _ r hr') steady (live_thread hr') (hm.thread hr').tag
          horigin (spared t r hr')
      · rw [heq]
        exact started r hstarted
  · cases t with
    | none => exact nodup
    | some t =>
      rcases hother t r hr with ⟨hr', heq⟩ | ⟨heq, -⟩
      · rw [heq]
        exact lodgings.nodup _ r hr'
      · rw [heq]
        exact List.nodup_nil
  · cases t with
    | none =>
      cases u with
      | none => exact absurd rfl hne
      | some u => exact List.disjoint_symm (hapart u s hs)
    | some t =>
      cases u with
      | none => exact hapart t r hr
      | some u =>
        rcases hother t r hr with ⟨hr', heq⟩ | ⟨heq, -⟩
        · rcases hother u s hs with ⟨hs', heq'⟩ | ⟨heq', -⟩
          · rw [heq, heq']
            exact lodgings.apart _ _ r s hne hr' hs'
          · rw [heq']
            exact List.disjoint_nil_right _
        · rw [heq]
          exact List.disjoint_nil_left _

/-! ## Instructions that write no variables -/

section Instructions

variable (hm : m.Sound) (hk : k.Sound) (realizes : Realizes m k e f)
  (he : m.effectOf? program i = some e)
  (lodgings : Lodgings layout table book held m.heap m.roots m.thread?)

include hm realizes he lodgings

/-- Neither functions nor frames are made. -/
theorem lodges_tame (tame : e.Tame m.heap) : k.heap.Lodges layout table book k.roots := by
  refine realizes.lodges hm he lodgings.toLodges lodgings.toKept (fun _ _ => rfl)
    (fun a _ htag slot hnone => ⟨hnone, ?_⟩) (fun j header words hj htag => ?_)
    fun j header words hj htag => ?_
  · rintro ⟨w, hw⟩
    rcases tame.writes a _ w hw with hw | hw <;> exact absurd (htag.symm.trans hw) (by decide)
  · exact absurd htag (tame.made header words (List.mem_of_getElem? hj)).1
  · exact absurd htag (tame.made header words (List.mem_of_getElem? hj)).2

include hk

/-- The running thread goes on in rooms around it. -/
theorem lodgings_same (heap : k.heap.Lodges layout table book k.roots) {environment : Address}
    {frames : List Address} (henv : e.registers.environment = .known environment)
    (hframes : e.registers.frames = frames.map .known)
    (self : ∃ φ held', layout e.registers.pc = some φ ∧ held' <:+ held none ∧
      Lodged layout table book m.heap environment frames φ.rooms held')
    (started : ∀ r, e.started = some r → m.heap.tag r.environment = .environment ∧
      r.Lodged layout table book m.heap []) :
    ∃ held', Lodgings layout table book held' k.heap k.roots k.thread? := by
  have steady := realizes.steady hm he
  refine realizes.lodgings hm he lodgings heap (fun _ _ => rfl) (fun _ _ _ _ _ _ _ _ _ => rfl) ?_
    fun r hr => ?_
  · obtain ⟨φ, held', hφ, hsuffix, lodged⟩ := self
    have hoverview : k.registers.pc = e.registers.pc ∧ k.registers.environment = environment ∧
        k.registers.frames = frames := by
      rw [realizes.outline, Outline.placed, henv, hframes, map_placed_known]
      exact ⟨rfl, rfl, rfl⟩
    obtain ⟨hpc, henv', hframes'⟩ := hoverview
    have hlive : ∀ a ∈ environment :: frames, m.heap.Live m.roots a := by
      intro a ha
      refine realizes.registers (.known a) (List.mem_append_right _ ?_)
      rw [henv, hframes]
      rcases List.mem_cons.1 ha with rfl | ha
      · exact List.mem_cons_self
      · exact List.mem_cons_of_mem _ (List.mem_map_of_mem ha)
    have htag : m.heap.tag environment = .environment := by
      rw [← realizes.heap.tag (hlive _ List.mem_cons_self), ← henv']
      exact hk.registers.tag
    refine ⟨held', ⟨φ, hpc ▸ hφ, ?_⟩, ?_, fun a ha => .inl (hsuffix.mem ha)⟩
    · rw [henv', hframes']
      exact lodged.keep hm.heap hm.inUse_root steady (hlive _ List.mem_cons_self) htag
        (fun a ha => hlive a (List.mem_cons_of_mem _ ha)) (fun _ _ => rfl)
        fun _ _ _ _ _ _ => rfl
    · exact (lodgings.nodup none _ rfl).sublist hsuffix.sublist
  · obtain ⟨htag, lodged⟩ := started r hr
    exact hm.keep_lodged lodged steady (realizes.started r hr) htag (fun _ _ => rfl)
      fun _ _ _ _ _ _ => rfl

end Instructions

/-! ## Assignments -/

section Assignments

variable (hm : m.Sound) (hk : k.Sound) (realizes : Realizes m k e f) {q : Position}
  (he : m.effectOf? program (.store q) = some e)
  (lodgings : Lodgings layout table book held m.heap m.roots m.thread?)

include hm realizes he lodgings

/-- A slot of a frame is written: it is no constant, or this is its declaration. -/
theorem lodgings_written {frame : Address} {j : Nat}
    (hslot : m.heap.slotOf? m.registers.environment q = some (frame, j))
    (hbuiltins : (book frame).origin ≠ .builtins)
    (hwrite : ∀ d ∈ table, d.binding ≠ .variable → (book frame).origin = .scope d.start →
      d.slot = q.slot → (book frame).writers q.slot = [] ∧ d.index = m.registers.pc)
    (hother : ∀ t r, m.thread? (some t) = some r → frame ∈ held (some t) → ∀ d ∈ table,
      d.binding ≠ .variable → (book frame).origin = .scope d.start → d.slot ≠ q.slot)
    (self : ∃ φ, layout (m.registers.pc + 1) = some φ ∧
      Lodged layout table (book.written frame q.slot m.registers.pc) k.heap m.registers.environment
        m.registers.frames φ.rooms (held none)) :
    ∃ held', Lodgings layout table (book.written frame q.slot m.registers.pc) held' k.heap k.roots
      k.thread? := by
  obtain ⟨a, frame', hslot', -, -, heq⟩ := hm.exists_store he
  obtain ⟨rfl, -⟩ := Prod.mk.inj (Option.some.inj (hslot'.symm.trans hslot))
  have hwrites : e.writes = [(frame', q.slot + 1, a)] := by rw [heq]
  have hmade : e.made = [] := by rw [heq]; rfl
  have houtline : k.registers = { m.registers with pc := m.registers.pc + 1 } := by
    rw [realizes.outline, heq]
    exact Registers.placed_outline _ _
  refine realizes.lodgings hm he lodgings ?_ (fun _ _ => Book.origin_written) ?_ ?_ ?_
  · refine realizes.lodges hm he lodgings.toLodges (lodgings.toKept.written hbuiltins hwrite)
      (fun _ _ => Book.origin_written) (fun b _ _ slot hnone => ?_) (fun j header words hj => ?_)
      fun j header words hj => ?_
    · rw [Book.writers_written, List.append_eq_nil_iff] at hnone
      refine ⟨hnone.1, ?_⟩
      rintro ⟨w, hw⟩
      rw [hwrites, List.mem_singleton] at hw
      obtain ⟨hb, hpair⟩ := Prod.mk.inj hw
      have hindex := Nat.succ.inj (Prod.mk.inj hpair).1
      rw [if_pos ⟨hb, hindex.symm⟩] at hnone
      exact absurd hnone.2 (List.cons_ne_nil _ _)
    · rw [hmade] at hj
      cases hj
    · rw [hmade] at hj
      cases hj
  · intro t r hr b hb d hd hbinding horigin
    rw [Book.writers_written, if_neg, List.append_nil]
    rintro ⟨rfl, hindex⟩
    exact hother t r hr hb d hd hbinding horigin hindex.symm
  · obtain ⟨φ, hφ, lodged⟩ := self
    refine ⟨held none, ⟨φ, ?_, ?_⟩, lodgings.nodup none _ rfl, fun _ => .inl⟩
    · rw [houtline]
      exact hφ
    · rw [houtline]
      exact lodged
  · intro r hr
    rw [heq] at hr
    cases hr

/-- A variable is assigned. -/
theorem lodgings_assign (unique : ∀ d ∈ table, ∀ d' ∈ table, d.start = d'.start → d.slot = d'.slot →
      d = d') {frame : Address} {j : Nat}
    (hslot : m.heap.slotOf? m.registers.environment q = some (frame, j)) {φ : Site}
    (hφ : layout m.registers.pc = some φ) {name : String} (names : φ.Names q name .variable)
    (next : layout (m.registers.pc + 1) = some φ) :
    ∃ held', Lodgings layout table (book.written frame q.slot m.registers.pc) held' k.heap k.roots
      k.thread? := by
  obtain ⟨φ', hφ', lodged⟩ := lodgings.lodged none _ rfl
  obtain rfl := Option.some.inj (hφ'.symm.trans hφ)
  obtain ⟨room, hroom, hname⟩ := names
  have describes := lodged.houses.describes hslot hroom
  -- The slot is that of a variable, and therefore of no constant.
  have hvariable : ∀ d ∈ table, d.binding ≠ .variable → (book frame).origin = .scope d.start →
      d.slot ≠ q.slot := by
    intro d hd hbinding horigin hslot
    obtain ⟨index, hindex⟩ :=
      describes.listed d.start (describes.origin.symm.trans horigin) q.slot _ hname
    rw [unique d hd _ hindex rfl hslot] at hbinding
    exact hbinding rfl
  refine lodgings_written hm realizes he lodgings hslot (fun horigin => ?_)
    (fun d hd hbinding horigin hslot => absurd hslot (hvariable d hd hbinding horigin))
    (fun _ _ _ _ => hvariable) ⟨φ', next, ?_⟩
  · exact describes.builtins (describes.origin.symm.trans horigin) _ (List.mem_of_getElem? hname) rfl
  · refine lodged.keep hm.heap hm.inUse_root (realizes.steady hm he) Sound.live_environment
      hm.registers.tag (fun a ha => Sound.live_root (Registers.mem_roots.2 (.inr (.inr ha))))
      (fun _ _ => Book.origin_written) fun b _ d hd hbinding horigin => ?_
    rw [Book.writers_written, if_neg, List.append_nil]
    rintro ⟨rfl, hindex⟩
    exact hvariable d hd hbinding horigin hindex.symm

/-- The next name of the innermost room is declared. -/
theorem lodgings_declare (unique : ∀ d ∈ table, ∀ d' ∈ table, d.start = d'.start → d.slot = d'.slot →
      d = d') {frame : Address} {j : Nat}
    (hslot : m.heap.slotOf? m.registers.environment q = some (frame, j)) {room : Room}
    {outer : List Room} {loop : Option Inside} (hφ : layout m.registers.pc = some ⟨room :: outer, loop⟩)
    (hq : q = ⟨outer.length, room.passed⟩) {start : Nat} {name : String} {binding : Binding}
    (opened : room.origin = .scope start) (hname : room.names[room.passed]? = some (name, binding))
    (listed : ⟨start, room.passed, name, binding, m.registers.pc⟩ ∈ table)
    (next : layout (m.registers.pc + 1) = some ⟨room.advance 1 :: outer, loop⟩) :
    ∃ held', Lodgings layout table (book.written frame q.slot m.registers.pc) held' k.heap k.roots
      k.thread? := by
  subst hq
  obtain ⟨φ, hφ', lodged⟩ := lodgings.lodged none _ rfl
  obtain rfl := Option.some.inj (hφ'.symm.trans hφ)
  have hnodup := lodgings.nodup none _ rfl
  have unsettled : ¬ room.Settled := by
    unfold Room.Settled
    exact Nat.not_le.2 (List.getElem?_eq_some_iff.1 hname).1
  obtain ⟨a, own, rest, held', hframes, hheld, tag, inside, describes, awaits, around⟩ :=
    lodged.innermost unsettled
  -- The slot is one of the frame that the thread holds.
  obtain rfl : frame = own := by
    have hframe := (Heap.of_slotOf?_eq hslot).1
    have hlen : outer.length = (m.heap.framesOf (m.heap.word a 1)).length := by
      rw [around.houses.length_eq, List.length_reverse]
    rw [inside, hlen, List.getElem?_append_right (Nat.le_refl _), Nat.sub_self] at hframe
    exact (Option.some.inj hframe).symm
  have hscope : ∀ d : Declaration, (book frame).origin = .scope d.start → d.start = start := by
    intro d horigin
    rw [describes.origin, opened] at horigin
    exact (Origin.scope.inj horigin).symm
  have hlive : ∀ b ∈ a :: rest, m.heap.Live m.roots b := by
    intro b hb
    exact Sound.live_root (Registers.mem_roots.2 (.inr (.inr (hframes ▸ hb))))
  have ha := hlive a List.mem_cons_self
  have hin := hm.inUse_of_live ha
  have steady := realizes.steady hm he
  refine lodgings_written hm realizes he lodgings hslot (fun horigin => ?_)
    (fun d hd hbinding horigin hd' => ?_) (fun t r hr hmem => ?_) ⟨_, next, ?_⟩
  · rw [describes.origin, opened] at horigin
    cases horigin
  · obtain rfl := unique d hd _ listed (hscope d horigin) hd'
    exact ⟨awaits _ hd opened (Nat.le_refl _) hbinding, rfl⟩
  · exact absurd (hheld ▸ List.mem_cons_self) (lodgings.apart _ none r _ (Option.some_ne_none t) hr rfl hmem)
  · rw [hframes, hheld]
    rw [hheld, List.nodup_cons] at hnodup
    refine Lodged.keep_block hm.heap hm.inUse_root tag inside steady Sound.live_environment
      hm.registers.tag ha ?_ ?_ ?_
    · refine around.keep hm.heap hm.inUse_root steady (hm.heap.live_block hin (.inl tag) ha)
        (hm.heap.word_block hin (.inl tag)).2 (fun b hb => hlive b (List.mem_cons_of_mem a hb))
        (fun _ _ => Book.origin_written) fun b hb d hd hbinding horigin => ?_
      rw [Book.writers_written, if_neg, List.append_nil]
      rintro ⟨rfl, -⟩
      exact hnodup.1 hb
    · have further : (room.advance 1).Describes table book frame := describes.of_eq rfl rfl
      exact further.congr Book.origin_written
    · intro d hd horigin hpassed hbinding
      have hpassed : room.passed + 1 ≤ d.slot := hpassed
      rw [Book.writers_written, if_neg, List.append_nil]
      · exact awaits d hd horigin (Nat.le_of_succ_le hpassed) hbinding
      · rintro ⟨-, heq⟩
        exact absurd hpassed (Nat.not_le.2 (Nat.lt_succ_of_le (Nat.le_of_eq heq.symm)))

end Assignments

/-! ## New frames -/

section Frames

variable (hm : m.Sound) (hk : k.Sound) (realizes : Realizes m k e f)
  (he : m.effectOf? program i = some e)
  (lodgings : Lodgings layout table book held m.heap m.roots m.thread?)

include hm realizes he lodgings

/-- A frame is made, and the running thread goes on in it. -/
theorem lodgings_begun {frame : Address} {origin : Origin} (hwrites : e.writes = [])
    (hstarted : e.started = none) (hnew : ¬ m.heap.Live m.roots frame) (horigin : origin ≠ .builtins)
    (hframes : ∀ j header words, e.made[j]? = some (.node header words) → header.tag = .frame →
      f j = frame ∧ ∀ start, origin = .scope start → ∀ r ∈ words, r = .known Heap.unassigned)
    (hfunctions : ∀ header words, .node header words ∈ e.made → header.tag ≠ .closure)
    (self : ∃ new, k.registers.Lodged layout table (book.begun frame origin) k.heap new ∧ new.Nodup ∧
      ∀ a ∈ new, a ∈ held none ∨ ¬ m.heap.Live m.roots a) :
    ∃ held', Lodgings layout table (book.begun frame origin) held' k.heap k.roots k.thread? := by
  have hold : ∀ a, m.heap.Live m.roots a → book.begun frame origin a = book a := by
    intro a ha
    refine Book.begun_of_ne ?_
    rintro rfl
    exact hnew ha
  refine realizes.lodgings hm he lodgings ?_ (fun a ha => congrArg Page.origin (hold a ha))
    (fun t r hr a ha d _ _ _ => ?_) self fun r hr => ?_
  · refine realizes.lodges hm he lodgings.toLodges (lodgings.toKept.begun horigin)
      (fun a ha => congrArg Page.origin (hold a ha)) (fun a ha _ slot hnone => ?_)
      (fun j header words hj htag start hscope => ?_) fun j header words hj htag => ?_
    · rw [hold a ha] at hnone
      refine ⟨hnone, ?_⟩
      rintro ⟨w, hw⟩
      rw [hwrites] at hw
      cases hw
    · obtain ⟨rfl, hwords⟩ := hframes j header words hj htag
      rw [Book.begun_self] at hscope
      exact hwords start hscope
    · exact absurd htag (hfunctions header words (List.mem_of_getElem? hj))
  · rw [hold a (hm.live_held (lodgings.lodged _ r hr) hr a ha)]
  · rw [hstarted] at hr
    cases hr

/-- The thread stays in its rooms while a frame is made elsewhere. -/
theorem keep_begun {frame : Address} {origin : Origin} (hnew : ¬ m.heap.Live m.roots frame) {φ : Site}
    (hφ : layout m.registers.pc = some φ) :
    Lodged layout table (book.begun frame origin) k.heap m.registers.environment m.registers.frames
      φ.rooms (held none) := by
  have hheld := hm.live_held (lodgings.lodged none _ rfl) rfl
  obtain ⟨φ', hφ', lodged⟩ := lodgings.lodged none _ rfl
  obtain rfl := Option.some.inj (hφ'.symm.trans hφ)
  have hold : ∀ a, m.heap.Live m.roots a → book.begun frame origin a = book a := by
    intro a ha
    refine Book.begun_of_ne ?_
    rintro rfl
    exact hnew ha
  refine lodged.keep hm.heap hm.inUse_root (realizes.steady hm he) Sound.live_environment
    hm.registers.tag (fun a ha => Sound.live_root (Registers.mem_roots.2 (.inr (.inr ha))))
    (fun a ha => congrArg Page.origin (hold a ha)) fun a ha d _ _ _ => ?_
  rw [hold a (hheld a ha)]

end Frames

section Scopes

/-- A frame and an environment with it are made, in this order. -/
theorem frame_of_inside {values : List Nat} {h : Heap} {environment : Address} {i j : Nat}
    {header : Header} {words : List Ref}
    (hj : [Blueprint.frame values, .inside h environment i][j]? = some (.node header words)) :
    (header.tag = .frame → j = 0 ∧ words = values.map .known) ∧ header.tag ≠ .closure := by
  match j with
  | 0 =>
    obtain ⟨rfl, rfl⟩ := Blueprint.node.inj (Option.some.inj hj)
    exact ⟨fun _ => ⟨rfl, rfl⟩, Tag.noConfusion⟩
  | 1 =>
    obtain ⟨rfl, -⟩ := Blueprint.node.inj (Option.some.inj hj)
    exact ⟨fun h => (by cases h), Tag.noConfusion⟩
  | j + 2 => cases hj

/-- Before them, a frame to return to may be made. -/
theorem frame_of_entering {header : Header} (hback : header.tag = .blockframe ∨ header.tag = .callframe)
    {outer environment : Address} {values : List Nat} {h : Heap} {i j : Nat} {header' : Header}
    {words : List Ref} (hj : [Blueprint.back header outer, .frame values, .inside h environment i][j]? =
      some (.node header' words)) :
    (header'.tag = .frame → j = 1 ∧ words = values.map .known) ∧ header'.tag ≠ .closure := by
  cases j with
  | zero =>
    obtain ⟨rfl, -⟩ := Blueprint.node.inj (Option.some.inj hj)
    rcases hback with htag | htag <;> rw [htag] <;> exact ⟨fun h => (by cases h), Tag.noConfusion⟩
  | succ j =>
    obtain ⟨hframe, hclosure⟩ := frame_of_inside (j := j) hj
    exact ⟨fun htag => (hframe htag).imp_left (congrArg Nat.succ), hclosure⟩

theorem innermost_of_framesOf {outer : List Address} {frame : Address}
    (hframes : k.heap.framesOf k.registers.environment = outer ++ [frame]) : k.innermost = frame := by
  have hlen := congrArg List.length hframes
  rw [Heap.length_framesOf, List.length_append, List.length_singleton] at hlen
  have hlast : (k.heap.framesOf k.registers.environment)[outer.length]? =
      some (k.heap.word k.registers.environment (outer.length + 1)) :=
    Heap.getElem?_framesOf (hlen ▸ Nat.lt_succ_self _)
  rw [hframes, List.getElem?_append_right (Nat.le_refl _), Nat.sub_self] at hlast
  rw [innermost, hlen]
  exact (Option.some.inj hlast).symm

/-- The rooms in a function that is called. -/
theorem Sound.houses_entered (hm : m.Sound) (steady : m.heap.Steady k.heap m.roots)
    {captured inside frame : Address} {φ : Site} (houses : m.heap.Houses table book captured φ.rooms)
    (hlive : m.heap.Live m.roots captured) (htag : m.heap.tag captured = .environment)
    (hnew : ¬ m.heap.Live m.roots frame)
    (hframes : k.heap.framesOf inside = m.heap.framesOf captured ++ [frame]) (names : Scope) :
    k.heap.Houses table (book.begun frame .call) inside (φ.entry names).rooms ∧
      ∀ r ∈ (φ.entry names).rooms, r.Settled := by
  have hkept : k.heap.Houses table (book.begun frame .call) captured φ.rooms := by
    refine houses.congr (Lodged.framesOf_steady hm.heap hm.inUse_root steady hlive htag) fun a ha => ?_
    rw [Book.begun_of_ne]
    rintro rfl
    exact hnew (hm.heap.live_framesOf hm.inUse_root hlive htag a ha).1
  refine ⟨?_, List.forall_mem_cons.2 ⟨Room.settled_parameters names, fun r hr => ?_⟩⟩
  · rw [Heap.Houses, hframes, List.reverse_append,
      ← Lodged.framesOf_steady hm.heap hm.inUse_root steady hlive htag]
    refine .cons ⟨?_, fun _ h => (by cases h), fun h => (by cases h)⟩
      (hkept.map (fun _ => rfl) fun _ => rfl)
    rw [Book.begun_self]
    rfl
  · obtain ⟨room, -, rfl⟩ := List.mem_map.1 hr
    exact room.settled_settle

variable (hm : m.Sound) (realizes : Realizes m k e f)
  (lodgings : Lodgings layout table book held m.heap m.roots m.thread?)

include hm realizes lodgings

/-- A scope is opened. -/
theorem lodgings_enterScope {names : Scope} {φ : Site} {loop : Option Inside}
    (he : m.effectOf? program (.enterScope names.length) = some e)
    (hφ : layout m.registers.pc = some φ) (listed : Lists table m.registers.pc names)
    (next : layout (m.registers.pc + 1) = some ⟨.opened m.registers.pc names :: φ.rooms, loop⟩) :
    ∃ held', Lodgings layout table (book.begun k.innermost (.scope m.registers.pc)) held' k.heap
      k.roots k.thread? := by
  have hentering : e = m.entering names.length := by
    cases hasEffect_of_effectOf? he
    rfl
  have hmade : e.made = [.back (.fresh .blockframe 2) m.registers.environment,
      .frame (.replicate names.length Heap.unassigned), .inside m.heap m.registers.environment 1] :=
    congrArg (·.made) hentering
  have steady := realizes.steady hm he
  have newBlock := realizes.heap.node 0 _ _ (congrArg (·[0]?) hmade)
  have newFrame := realizes.heap.node 1 _ _ (congrArg (·[1]?) hmade)
  have newInside := realizes.heap.node 2 _ _ (congrArg (·[2]?) hmade)
  rw [Heap.placed_inside] at newInside
  have hframes := newInside.framesOf
  have hregisters : k.registers.pc = m.registers.pc + 1 ∧ k.registers.environment = f 2 ∧
      k.registers.frames = f 0 :: m.registers.frames := by
    rw [realizes.outline, hentering]
    exact ⟨rfl, rfl, congrArg (f 0 :: ·) (map_placed_known f _)⟩
  obtain ⟨hpc, henv, hback⟩ := hregisters
  rw [innermost_of_framesOf (henv ▸ hframes)]
  refine lodgings_begun hm realizes he lodgings (hentering ▸ rfl) (hentering ▸ rfl) newFrame.not_live
    Origin.noConfusion (fun j header words hj htag => ?_) (fun header words hmem => ?_) ?_
  · rw [hmade] at hj
    obtain ⟨rfl, rfl⟩ := (frame_of_entering (.inl rfl) hj).1 htag
    refine ⟨rfl, fun start _ r hr => ?_⟩
    obtain ⟨a, ha, rfl⟩ := List.mem_map.1 hr
    exact congrArg Ref.known (List.eq_of_mem_replicate ha)
  · rw [hmade] at hmem
    obtain ⟨j, hj⟩ := List.mem_iff_getElem?.1 hmem
    exact (frame_of_entering (.inl rfl) hj).2
  · refine ⟨f 1 :: held none, ⟨_, hpc ▸ next, ?_⟩, List.nodup_cons.2 ⟨fun hmem => ?_,
      lodgings.nodup none _ rfl⟩, fun a ha => ?_⟩
    · rw [henv, hback]
      refine .block (keep_begun hm realizes he lodgings newFrame.not_live hφ) ?_ (newBlock.word 0 _ rfl) ?_ ⟨?_, ?_, ?_⟩ ?_
      · rw [Heap.tag, newBlock.header]
        rfl
      · rw [hframes, Lodged.framesOf_steady hm.heap hm.inUse_root steady Sound.live_environment
          hm.registers.tag]
      · rw [Book.begun_self]
        rfl
      · intro start hstart
        exact Origin.scope.inj hstart ▸ listed
      · intro hbuiltins
        cases hbuiltins
      · intro d _ _ _ _
        rw [Book.begun_self]
        rfl
    · exact newFrame.not_live (hm.live_held (lodgings.lodged none _ rfl) rfl
        _ hmem)
    · rcases List.mem_cons.1 ha with rfl | ha
      · exact .inr newFrame.not_live
      · exact .inl ha

/-- A function is called. -/
theorem lodgings_call {n : Nat} {φ : Site} (he : m.effectOf? program (.call n) = some e)
    (hcalls : m.callsFunction n = true) (hφ : layout m.registers.pc = some φ)
    (next : layout (m.registers.pc + 1) = some φ) (small : m.registers.pc + 1 < 2 ^ 32) :
    ∃ held', Lodgings layout table (book.begun k.innermost .call) held' k.heap k.roots k.thread? := by
  obtain ⟨a, ha, htag⟩ := exists_function hcalls
  have hinvoking : e = m.invoking a n := invoking_of_call ha htag he
  have hmade : e.made = [.back (Heap.callHeader (m.registers.pc + 1)) m.registers.environment,
      .frame (m.registers.stack.take n).reverse, .inside m.heap (m.heap.word a 2) 1] :=
    congrArg (·.made) hinvoking
  have steady := realizes.steady hm he
  have newCall := realizes.heap.node 0 _ _ (congrArg (·[0]?) hmade)
  have newFrame := realizes.heap.node 1 _ _ (congrArg (·[1]?) hmade)
  have newInside := realizes.heap.node 2 _ _ (congrArg (·[2]?) hmade)
  rw [Heap.placed_inside] at newInside
  have hframes := newInside.framesOf
  have hregisters : k.registers.pc = (m.heap.payload a).toNat ∧ k.registers.environment = f 2 ∧
      k.registers.frames = f 0 :: m.registers.frames := by
    rw [realizes.outline, hinvoking]
    exact ⟨rfl, rfl, congrArg (f 0 :: ·) (map_placed_known f _)⟩
  obtain ⟨hpc, henv, hback⟩ := hregisters
  rw [innermost_of_framesOf (henv ▸ hframes)]
  refine lodgings_begun hm realizes he lodgings (hinvoking ▸ rfl) (hinvoking ▸ rfl) newFrame.not_live
    Origin.noConfusion (fun j header words hj htag => ?_) (fun header words hmem => ?_) ?_
  · rw [hmade] at hj
    obtain ⟨rfl, -⟩ := (frame_of_entering (.inr rfl) hj).1 htag
    exact ⟨rfl, fun _ h => by cases h⟩
  · rw [hmade] at hmem
    obtain ⟨j, hj⟩ := List.mem_iff_getElem?.1 hmem
    exact (frame_of_entering (.inr rfl) hj).2
  · obtain ⟨hlive, hcaptured⟩ := hm.live_captured ha htag
    obtain ⟨ψ, names, hentry, houses⟩ := lodgings.functions a
      (Sound.live_stack (List.mem_of_getElem? ha)) htag
    obtain ⟨houses', settled⟩ := hm.houses_entered steady houses hlive hcaptured
      newFrame.not_live hframes names
    refine ⟨held none, ⟨_, hpc ▸ hentry, ?_⟩, lodgings.nodup none _ rfl,
      fun _ => .inl⟩
    rw [henv, hback]
    refine .call (keep_begun hm realizes he lodgings newFrame.not_live hφ) ?_ (newCall.word 0 _ rfl) ?_
      houses' settled
    · rw [Heap.tag, newCall.header]
      rfl
    · rw [Heap.payload, newCall.header]
      change layout (UInt32.ofNat (m.registers.pc + 1)).toNat = some φ
      rwa [show (UInt32.ofNat (m.registers.pc + 1)).toNat = m.registers.pc + 1 from
        UInt32.toNat_ofNat_of_lt small]

/-- A function is called in place of the running one. -/
theorem lodgings_tailCall {n : Nat} {φ : Site} (he : m.effectOf? program (.tailCall n) = some e)
    (hcalls : m.callsFunction n = true) (hφ : layout m.registers.pc = some φ) :
    ∃ held', Lodgings layout table (book.begun k.innermost .call) held' k.heap k.roots k.thread? := by
  obtain ⟨a, ha, htag⟩ := exists_function hcalls
  have hreplacing : e = m.replacing a n := replacing_of_tailCall ha htag he
  have hmade : e.made = [.frame (m.registers.stack.take n).reverse,
      .inside m.heap (m.heap.word a 2) 0] := congrArg (·.made) hreplacing
  have steady := realizes.steady hm he
  have newFrame := realizes.heap.node 0 _ _ (congrArg (·[0]?) hmade)
  have newInside := realizes.heap.node 1 _ _ (congrArg (·[1]?) hmade)
  rw [Heap.placed_inside] at newInside
  have hframes := newInside.framesOf
  have hregisters : k.registers.pc = (m.heap.payload a).toNat ∧ k.registers.environment = f 1 ∧
      k.registers.frames = m.registers.frames.dropWhile fun a => m.heap.tag a = .blockframe := by
    rw [realizes.outline, hreplacing]
    exact ⟨rfl, rfl, map_placed_known f _⟩
  obtain ⟨hpc, henv, hback⟩ := hregisters
  rw [innermost_of_framesOf (henv ▸ hframes)]
  refine lodgings_begun hm realizes he lodgings (hreplacing ▸ rfl) (hreplacing ▸ rfl)
    newFrame.not_live Origin.noConfusion (fun j header words hj htag => ?_) (fun header words hmem => ?_)
    ?_
  · rw [hmade] at hj
    obtain ⟨rfl, -⟩ := (frame_of_inside hj).1 htag
    exact ⟨rfl, fun _ h => by cases h⟩
  · rw [hmade] at hmem
    obtain ⟨j, hj⟩ := List.mem_iff_getElem?.1 hmem
    exact (frame_of_inside hj).2
  · obtain ⟨hlive, hcaptured⟩ := hm.live_captured ha htag
    obtain ⟨ψ, names, hentry, houses⟩ := lodgings.functions a
      (Sound.live_stack (List.mem_of_getElem? ha)) htag
    obtain ⟨houses', settled⟩ := hm.houses_entered steady houses hlive hcaptured
      newFrame.not_live hframes names
    obtain ⟨held', hsuffix, lodged⟩ := (keep_begun hm realizes he lodgings newFrame.not_live
      hφ).replacing houses' settled
    refine ⟨held', ⟨_, hpc ▸ hentry, ?_⟩,
      (lodgings.nodup none _ rfl).sublist hsuffix.sublist, fun a ha => .inl (hsuffix.mem ha)⟩
    rw [henv, hback]
    have hdrop : (m.registers.frames.dropWhile fun a => m.heap.tag a = .blockframe) =
        m.registers.frames.dropWhile fun a => k.heap.tag a = .blockframe := by
      refine dropWhile_congr fun b hb => ?_
      rw [realizes.heap.tag (Sound.live_root (Registers.mem_roots.2 (.inr (.inr hb))))]
    rw [hdrop]
    exact lodged

end Scopes

/-! ## Every instruction -/

section Steps

variable (hm : m.Sound) (hk : k.Sound) (realizes : Realizes m k e f)
  (lodgings : Lodgings layout table book held m.heap m.roots m.thread?)
  {φ : Site} (hφ : layout m.registers.pc = some φ)

include hm hk realizes lodgings hφ

/-- The thread goes on in the same rooms, or it does not go on yet. -/
theorem lodgings_stays (he : m.effectOf? program i = some e) (stays : Stays m e)
    (next : layout (m.registers.pc + 1) = some φ) :
    ∃ held', Lodgings layout table book held' k.heap k.roots k.thread? := by
  obtain ⟨φ', hφ', lodged⟩ := lodgings.lodged none _ rfl
  obtain rfl := Option.some.inj (hφ'.symm.trans hφ)
  refine lodgings_same hm hk realizes he lodgings (lodges_tame hm realizes he lodgings stays.toTame)
    stays.environment stays.frames ⟨φ', _, ?_, List.suffix_rfl, lodged⟩ fun r hr => ?_
  · rcases stays.pc with hpc | hpc
    · rw [hpc, hφ]
    · rw [hpc, next]
  · rw [stays.started] at hr
    cases hr

omit hφ in
/-- The thread moves to rooms around it. -/
theorem lodgings_moves {r : Registers} {progress : Progress}
    (hmoves : e = { Effect.moves r with progress }) (he : m.effectOf? program i = some e)
    (self : ∃ ψ held', layout r.pc = some ψ ∧ held' <:+ held none ∧
      Lodged layout table book m.heap r.environment r.frames ψ.rooms held') :
    ∃ held', Lodgings layout table book held' k.heap k.roots k.thread? := by
  subst hmoves
  exact lodgings_same hm hk realizes he lodgings (lodges_tame hm realizes he lodgings
    (.of_nothing rfl)) rfl rfl self fun r hr => by cases hr

/-- The thread moves to an index with the same rooms. -/
theorem lodgings_goes {r : Registers} {progress : Progress}
    (hmoves : e = { Effect.moves r with progress }) (he : m.effectOf? program i = some e)
    (henv : r.environment = m.registers.environment) (hframes : r.frames = m.registers.frames)
    (jumps : layout r.pc = some φ) :
    ∃ held', Lodgings layout table book held' k.heap k.roots k.thread? := by
  obtain ⟨φ', hφ', lodged⟩ := lodgings.lodged none _ rfl
  obtain rfl := Option.some.inj (hφ'.symm.trans hφ)
  refine lodgings_moves hm hk realizes lodgings hmoves he ⟨φ', _, jumps, List.suffix_rfl, ?_⟩
  rw [henv, hframes]
  exact lodged

/-- The thread closes scopes. -/
theorem lodgings_closes {n pc : Nat} {environment : Address} {frames : List Address}
    (hclosing : m.heap.closing? n m.registers.environment m.registers.frames =
      some (environment, frames))
    (hmoves : e = .moves { m.registers with pc, environment, frames })
    (he : m.effectOf? program i = some e) {ψ : Site} (jumps : layout pc = some ψ)
    (ahead : Room.AllAhead (φ.rooms.drop n) ψ.rooms) :
    ∃ held', Lodgings layout table book held' k.heap k.roots k.thread? := by
  obtain ⟨φ', hφ', lodged⟩ := lodgings.lodged none _ rfl
  obtain rfl := Option.some.inj (hφ'.symm.trans hφ)
  obtain ⟨held', hsuffix, hclosed⟩ := lodged.closing hclosing
  exact lodgings_moves hm hk realizes lodgings hmoves he
    ⟨ψ, held', jumps, hsuffix, hclosed.ahead ahead⟩

/-- The thread leaves a loop, to behind its end or for its next round. -/
theorem lodgings_leaves {b : Bool} {ψ : Site} {inside : Inside}
    (he : m.effectOf? program (if b then .breakLoop else .continueLoop) = some e)
    (search : program.loopEndAfter m.registers.pc =
      .found ⟨inside.loop.marker, inside.loop.next, inside.scopes⟩)
    (jumps : layout (if b then inside.loop.marker + 1 else inside.loop.next) = some ψ)
    (ahead : Room.AllAhead (φ.rooms.drop inside.scopes) ψ.rooms) :
    ∃ held', Lodgings layout table book held' k.heap k.roots k.thread? := by
  have hexit : ∃ closed, m.heap.closing? inside.scopes m.registers.environment m.registers.frames =
      some closed ∧ e = .moves { m.registers with
        pc := if b then inside.loop.marker + 1 else inside.loop.next
        environment := closed.1
        frames := closed.2 } := by
    cases b with
    | true =>
      cases hasEffect_of_effectOf? he with
      | breaks found closing =>
        obtain rfl := LoopSearch.found.inj (search.symm.trans found)
        exact ⟨_, closing, rfl⟩
      | breakSpins spins => exact nomatch search.symm.trans spins
    | false =>
      cases hasEffect_of_effectOf? he with
      | continues found closing =>
        obtain rfl := LoopSearch.found.inj (search.symm.trans found)
        exact ⟨_, closing, rfl⟩
      | continueSpins spins => exact nomatch search.symm.trans spins
  obtain ⟨⟨environment, frames⟩, hclosing, hmoves⟩ := hexit
  exact lodgings_closes hm hk realizes lodgings hφ hclosing hmoves he jumps ahead

omit hφ in
/-- The function of the thread returns. -/
theorem lodgings_returns {pc : Nat} {environment : Address} {frames : List Address}
    (hreturning : m.heap.returning? m.registers.frames = some (pc, environment, frames))
    (tame : e.Tame m.heap) (hpc : e.registers.pc = pc)
    (henv : e.registers.environment = .known environment)
    (hframes : e.registers.frames = frames.map .known) (hstarted : e.started = none)
    (he : m.effectOf? program i = some e) :
    ∃ held', Lodgings layout table book held' k.heap k.roots k.thread? := by
  obtain ⟨φ', hφ', lodged⟩ := lodgings.lodged none _ rfl
  obtain ⟨ψ, held', hsuffix, hψ, hlodged⟩ := lodged.returning hreturning
  refine lodgings_same hm hk realizes he lodgings (lodges_tame hm realizes he lodgings tame) henv
    hframes ⟨ψ, held', hpc ▸ hψ, hsuffix, hlodged⟩ fun r hr => ?_
  rw [hstarted] at hr
  cases hr

/-- A function is made. -/
theorem lodgings_closure {arity entry : Nat} {names : Scope}
    (he : m.effectOf? program (.closure arity entry) = some e)
    (next : layout (m.registers.pc + 1) = some φ) (body : layout entry = some (φ.entry names))
    (small : entry < 2 ^ 32) :
    ∃ held', Lodgings layout table book held' k.heap k.roots k.thread? := by
  have hgives : e = .gives m.registers 0 (.new (.node (Heap.closureHeader entry)
    [.known arity, .known m.registers.environment])) := by
    cases hasEffect_of_effectOf? he
    rfl
  obtain ⟨φ', hφ', lodged⟩ := lodgings.lodged none _ rfl
  obtain rfl := Option.some.inj (hφ'.symm.trans hφ)
  have hmade : ∀ {j : Nat} {header : Header} {words : List Ref}, e.made[j]? = some (.node header words) →
      header = Heap.closureHeader entry ∧ words = [.known arity, .known m.registers.environment] := by
    intro j header words hj
    rw [hgives] at hj
    have hmem : Blueprint.node header words ∈ [Blueprint.node (Heap.closureHeader entry)
      [.known arity, .known m.registers.environment]] := List.mem_of_getElem? hj
    exact Blueprint.node.inj (List.mem_singleton.1 hmem)
  have heap : k.heap.Lodges layout table book k.roots := by
    refine realizes.lodges hm he lodgings.toLodges lodgings.toKept (fun _ _ => rfl)
      (fun a _ _ slot hnone => ⟨hnone, ?_⟩) (fun j header words hj htag => ?_)
      fun j header words hj _ => ?_
    · rintro ⟨w, hw⟩
      rw [hgives] at hw
      cases hw
    · obtain ⟨rfl, -⟩ := hmade hj
      cases htag
    · obtain ⟨rfl, rfl⟩ := hmade hj
      refine ⟨_, rfl, Sound.live_environment, hm.registers.tag, φ', names, ?_, lodged.houses⟩
      change layout (UInt32.ofNat entry).toNat = _
      rwa [show (UInt32.ofNat entry).toNat = entry from UInt32.toNat_ofNat_of_lt small]
  subst hgives
  exact lodgings_same hm hk realizes he lodgings heap rfl rfl ⟨φ', _, next, List.suffix_rfl, lodged⟩
    fun r hr => by cases hr

/-- A thread is started. -/
theorem lodgings_spawn {n : Nat} (he : m.effectOf? program (.spawn n) = some e)
    (start : layout (m.registers.pc + 1) = some φ.spawned)
    (next : layout (m.registers.pc + 3) = some φ) :
    ∃ held', Lodgings layout table book held' k.heap k.roots k.thread? := by
  obtain ⟨φ', hφ', lodged⟩ := lodgings.lodged none _ rfl
  obtain rfl := Option.some.inj (hφ'.symm.trans hφ)
  cases hasEffect_of_effectOf? he
  refine lodgings_same hm hk realizes he lodgings (lodges_tame hm realizes he lodgings
    (.of_nothing rfl)) rfl rfl ⟨φ', _, next, List.suffix_rfl, lodged⟩ fun r hr => ?_
  obtain rfl := Option.some.inj hr
  refine ⟨hm.registers.tag, _, start, .outer (lodged.houses.map (fun _ => rfl) fun _ => rfl)
    fun room hroom => ?_⟩
  obtain ⟨_, -, rfl⟩ := List.mem_map.1 hroom
  exact Room.settled_settle _

end Steps

/-! ## The book -/

theorem record_of_simple (simple : i.isSimple = true)
    (hcall : ∀ n, i = .call n → m.callsFunction n = false)
    (hi : program.at? m.registers.pc = some i) : record program m k book = book := by
  unfold record
  cases i with
  | call n => simp [hi, hcall n rfl]
  | store | closure | tailCall | ret | enterScope | exitScope | jumpUnless | jump | breakLoop
  | continueLoop | spawn | endThread | halt => cases simple
  | _ => simp [hi]

theorem record_store {q : Position} {frame : Address} {j : Nat}
    (hi : program.at? m.registers.pc = some (.store q))
    (hslot : m.heap.slotOf? m.registers.environment q = some (frame, j)) :
    record program m k book = book.written frame q.slot m.registers.pc := by
  simp only [record, hi, hslot]

end Machine

/-- An instruction of laid out code takes the running thread from rooms to rooms. -/
theorem Source.LaidOut.lodgings_step {layout : Layout} {table : List Declaration} {book : Book}
    {program : Program} {m k : Machine} {p : Progress} {held : Option ThreadId → List Address}
    (laid : LaidOut program table layout)
    (unique : ∀ d ∈ table, ∀ d' ∈ table, d.start = d'.start → d.slot = d'.slot → d = d')
    (hsize : program.code.size < 2 ^ 32) (hm : m.Sound) (hk : k.Sound)
    (hstep : m.step program = .ok p k)
    (lodgings : Lodgings layout table book held m.heap m.roots m.thread?) :
    ∃ held', Lodgings layout table (m.record program k book) held' k.heap k.roots k.thread? := by
  obtain ⟨φ, hφ, -⟩ := lodgings.lodged none _ rfl
  obtain ⟨i, hi, leads⟩ := laid.leads _ _ hφ
  have performs : Machine.Performs (Machine.step program) m (m.effect? program) := hm.performs_step
  obtain ⟨e, f, he, -, realizes⟩ := performs.of_ok hstep
  rw [Machine.effect?, hi] at he
  have he : m.effectOf? program i = some e := he
  have small : ∀ {pc ψ}, layout pc = some ψ → pc < 2 ^ 32 := by
    intro pc ψ hψ
    obtain ⟨_, hat, -⟩ := laid.leads pc ψ hψ
    exact Nat.lt_trans (Array.getElem?_eq_some_iff.1 hat).1 hsize
  cases leads with
  | simple simple next =>
    by_cases hcall : ∀ n, i = .call n → m.callsFunction n = false
    · rw [Machine.record_of_simple simple hcall hi]
      exact Machine.lodgings_stays hm hk realizes lodgings hφ he (hm.stays simple he hcall) next
    · simp only [not_forall, Bool.not_eq_false] at hcall
      obtain ⟨n, rfl, hcalls⟩ := hcall
      have hrecord : m.record program k book = book.begun k.innermost .call := by
        simp [Machine.record, hi, hcalls]
      rw [hrecord]
      exact Machine.lodgings_call hm realizes lodgings he hcalls hφ next (small next)
  | last last =>
    cases i with
    | tailCall n =>
      cases hcalls : m.callsFunction n with
      | true =>
        have hrecord : m.record program k book = book.begun k.innermost .call := by
          simp [Machine.record, hi, hcalls]
        rw [hrecord]
        exact Machine.lodgings_tailCall hm realizes lodgings he hcalls hφ
      | false =>
        have hrecord : m.record program k book = book := by simp [Machine.record, hi, hcalls]
        rw [hrecord]
        obtain ⟨x, printed, pc, environment, frames, hx, hreturning, rfl⟩ :=
          Machine.returning_of_tailCall hcalls he
        exact Machine.lodgings_returns hm hk realizes lodgings hreturning (.of_scalar rfl hx) rfl rfl
          rfl rfl he
    | ret =>
      have hrecord : m.record program k book = book := by simp [Machine.record, hi]
      rw [hrecord]
      cases Machine.hasEffect_of_effectOf? he with
      | ret returning =>
        exact Machine.lodgings_returns hm hk realizes lodgings returning (.of_nothing rfl) rfl rfl rfl
          rfl he
    | endThread | halt =>
      have hrecord : m.record program k book = book := by simp [Machine.record, hi]
      rw [hrecord]
      cases Machine.hasEffect_of_effectOf? he
      exact Machine.lodgings_goes hm hk realizes lodgings hφ rfl he rfl rfl hφ
    | _ => cases last
  | assign names next =>
    obtain ⟨_, frame, hslot, -⟩ := hm.exists_store he
    rw [Machine.record_store hi hslot]
    exact Machine.lodgings_assign hm realizes he lodgings unique hslot hφ names next
  | declare opened names listed next =>
    obtain ⟨_, frame, hslot, -⟩ := hm.exists_store he
    rw [Machine.record_store hi hslot]
    exact Machine.lodgings_declare hm realizes he lodgings unique hslot hφ rfl opened names listed next
  | closure plain next body =>
    have hrecord : m.record program k book = book := by simp [Machine.record, hi]
    rw [hrecord]
    exact Machine.lodgings_closure hm hk realizes lodgings hφ he next body (small body)
  | enterScope listed next =>
    have hrecord : m.record program k book = book.begun k.innermost (.scope m.registers.pc) := by
      simp [Machine.record, hi]
    rw [hrecord]
    exact Machine.lodgings_enterScope hm realizes lodgings he hφ listed next
  | exitScope next =>
    have hrecord : m.record program k book = book := by simp [Machine.record, hi]
    rw [hrecord]
    cases Machine.hasEffect_of_effectOf? he with
    | exitScope closing =>
      exact Machine.lodgings_closes hm hk realizes lodgings hφ closing rfl he next (.refl _)
  | jumpUnless next jumps =>
    have hrecord : m.record program k book = book := by simp [Machine.record, hi]
    rw [hrecord]
    cases Machine.hasEffect_of_effectOf? he with
    | @jumpUnless _ _ _ b =>
      refine Machine.lodgings_goes hm hk realizes lodgings hφ rfl he rfl rfl ?_
      cases b with
      | true => exact next
      | false => exact jumps
  | jump jumps =>
    have hrecord : m.record program k book = book := by simp [Machine.record, hi]
    rw [hrecord]
    cases Machine.hasEffect_of_effectOf? he
    exact Machine.lodgings_goes hm hk realizes lodgings hφ rfl he rfl rfl jumps
  | breakLoop inside jumps ahead =>
    have hrecord : m.record program k book = book := by simp [Machine.record, hi]
    rw [hrecord]
    exact Machine.lodgings_leaves (b := true) hm hk realizes lodgings hφ he
      (laid.search _ _ _ hφ inside (.inl hi)) jumps ahead
  | continueLoop inside jumps ahead =>
    have hrecord : m.record program k book = book := by simp [Machine.record, hi]
    rw [hrecord]
    exact Machine.lodgings_leaves (b := false) hm hk realizes lodgings hφ he
      (laid.search _ _ _ hφ inside (.inr hi)) jumps ahead
  | spawn start next =>
    have hrecord : m.record program k book = book := by simp [Machine.record, hi]
    rw [hrecord]
    exact Machine.lodgings_spawn hm hk realizes lodgings hφ he start next

end ChannelMachine
