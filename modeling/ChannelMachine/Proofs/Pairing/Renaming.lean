import ChannelMachine.Proofs.Pairing.Machine

/-!
# Machines up to a renaming of addresses

Twins on no particular footing differ in the addresses of their nodes and in the sizes of their
heaps.  `Machine.Renamed` leaves the sizes out, so it works in both directions and in a row.
-/

namespace ChannelMachine

open Heap (Pairing Partners)

namespace Heap

namespace Pairing

/-- The same pairs, seen from the second heap. -/
def flip (ρ : Pairing) : Pairing := fun b a => ρ a b

/-- The pairs of nodes that have a partner in common. -/
def comp (ρ σ : Pairing) : Pairing := fun a c => ∃ b, ρ a b ∧ σ b c

end Pairing

/-! ## Lists of partners -/

namespace Partners

variable {ρ σ : Pairing} {l l' l'' : List Address}

theorem flip (hl : Partners ρ l l') : Partners ρ.flip l' l := by
  induction hl with
  | nil => exact .nil
  | cons hab _ ih => exact .cons hab ih

theorem comp (hl : Partners ρ l l') (hl' : Partners σ l' l'') : Partners (ρ.comp σ) l l'' := by
  induction hl generalizing l'' with
  | nil =>
    cases hl'
    exact .nil
  | cons hab _ ih =>
    cases hl' with
    | cons hbc hrest => exact .cons ⟨_, hab, hbc⟩ (ih hrest)

end Partners

/-! ## Heaps -/

/-- The nodes in use of a heap, each its own partner. -/
def selves (h : Heap) : Pairing := fun a b => a = b ∧ h.InUse a

theorem Similar.flip {ρ : Pairing} {h k : Heap} {a b : Nat} (s : Similar ρ h k a b) :
    Similar ρ.flip k h b a where
  tag := s.tag.symm
  text := s.text.symm
  header := fun ht => (s.header (s.tag ▸ ht)).symm
  data := by
    rw [s.ranges.2]
    exact fun i hpos hlt => (s.data i hpos hlt).symm
  child := by
    rw [s.ranges.1]
    exact fun i hle hlt => Or.imp_right And.symm (s.child i hle hlt)

namespace Matched

variable {ρ σ : Pairing} {h k l : Heap}

theorem flip (m : Matched ρ h k) : Matched ρ.flip k h where
  left_inUse := fun b a hab => m.right_inUse a b hab
  right_inUse := fun b a hab => m.left_inUse a b hab
  similar := fun b a hab => (m.similar a b hab).flip
  right_unique := fun b a a' hab hab' => m.left_unique a a' b hab hab'
  left_unique := fun b b' a hab hab' => m.right_unique a b b' hab hab'
  bottom := m.bottom.symm
  permanent := fun a hmod hlt => m.permanent a hmod (m.bottom ▸ hlt)

theorem comp (m : Matched ρ h k) (m' : Matched σ k l) (hk : k.Intact) :
    Matched (ρ.comp σ) h l where
  left_inUse := fun a _ ⟨b, hab, _⟩ => m.left_inUse a b hab
  right_inUse := fun _ c ⟨b, _, hbc⟩ => m'.right_inUse b c hbc
  similar := by
    rintro a c ⟨b, hab, hbc⟩
    have s := m.similar a b hab
    have s' := m'.similar b c hbc
    have hnot : ∀ {w}, k.InUse w → w ≠ vacant := fun hw => hk.ne_vacant hw.toIsBlock
    refine ⟨s'.tag.trans s.tag, s'.text.trans s.text, fun ht => ?_, fun i hpos hlt => ?_,
      fun i hle hlt => ?_⟩
    · exact (s'.header (s.tag.symm ▸ ht)).trans (s.header ht)
    · exact (s'.data i hpos (s.ranges.2.symm ▸ hlt)).trans (s.data i hpos hlt)
    · have hw := s'.child i (s.ranges.1.symm ▸ hle) (s.ranges.1.symm ▸ hlt)
      rcases s.child i hle hlt with hv | ⟨hv, hmid⟩
      · rcases hw with hw | ⟨hmid, -⟩
        · exact .inl ⟨_, hv, hw⟩
        · exact absurd hmid (hnot (m.right_inUse _ _ hv))
      · rcases hw with hw | ⟨-, hw⟩
        · exact absurd hmid (hnot (m'.left_inUse _ _ hw))
        · exact .inr ⟨hv, hw⟩
  right_unique := by
    rintro a c c' ⟨b, hab, hbc⟩ ⟨b', hab', hbc'⟩
    obtain rfl := m.right_unique a b b' hab hab'
    exact m'.right_unique b c c' hbc hbc'
  left_unique := by
    rintro a a' c ⟨b, hab, hbc⟩ ⟨b', hab', hbc'⟩
    obtain rfl := m'.left_unique b b' c hbc hbc'
    exact m.left_unique a a' b hab hab'
  bottom := m'.bottom.trans m.bottom
  permanent := fun a hmod hlt =>
    ⟨a, m.permanent a hmod hlt, m'.permanent a hmod (m.bottom.symm ▸ hlt)⟩

end Matched

/-- A heap matches itself. -/
theorem Sound.matched_selves {h : Heap} (hs : h.Sound) : Matched h.selves h h where
  left_inUse := fun _ _ hab => hab.2
  right_inUse := by
    rintro a _ ⟨rfl, ha⟩
    exact ha
  similar := by
    rintro a _ ⟨rfl, ha⟩
    refine ⟨rfl, rfl, fun _ => rfl, fun _ _ _ => rfl, fun i hle hlt => ?_⟩
    rcases (hs.typed a ha).child i hle hlt with ⟨-, hvacant⟩ | ⟨hin, -⟩
    · exact .inr ⟨hvacant, hvacant⟩
    · exact .inl ⟨rfl, hin⟩
  right_unique := fun _ _ _ hab hab' => hab.1.symm.trans hab'.1
  left_unique := fun _ _ _ hab hab' => hab.1.trans hab'.1.symm
  bottom := rfl
  permanent := fun a hmod hlt => ⟨rfl, hs.inUse_of_live
    (fun _ hroot => absurd hroot List.not_mem_nil) (Live.permanent hs.toIntact hmod hlt)⟩

end Heap

/-! ## Registers and machines -/

namespace Registers.Matches

variable {ρ σ : Pairing} {r s u : Registers}

theorem flip (h : r.Matches ρ s) : s.Matches ρ.flip r :=
  ⟨h.stack.flip, h.pc.symm, h.environment, h.frames.flip⟩

theorem comp (h : r.Matches ρ s) (h' : s.Matches σ u) : r.Matches (ρ.comp σ) u :=
  ⟨h.stack.comp h'.stack, h'.pc.trans h.pc, ⟨_, h.environment, h'.environment⟩,
    h.frames.comp h'.frames⟩

/-- Registers whose nodes are their own partners match themselves. -/
theorem refl (h : ∀ a ∈ r.roots, ρ a a) : r.Matches ρ r where
  stack := .self fun a ha => h a (mem_roots.2 (.inl ha))
  pc := rfl
  environment := h _ (mem_roots.2 (.inr (.inl rfl)))
  frames := .self fun a ha => h a (mem_roots.2 (.inr (.inr ha)))

/-- Registers whose nodes are in use match themselves. -/
theorem self {h : Heap} (hr : ∀ a ∈ r.roots, h.InUse a) : r.Matches h.selves r :=
  .refl fun a ha => ⟨rfl, hr a ha⟩

end Registers.Matches

namespace Machine

/-- Two machines that differ in the addresses of their nodes, and in what nobody can read. -/
structure Renamed (ρ : Pairing) (m k : Machine) : Prop extends
    Heap.Matched ρ m.heap k.heap where
  registers : m.registers.Matches ρ k.registers
  threads : ∀ t : ThreadId, Option.Rel (Registers.Matches ρ) m.threads[t]? k.threads[t]?
  current : k.current = m.current
  nextThread : k.nextThread = m.nextThread
  channels : ∀ a b, ρ a b → m.heap.tag a = .channel → k.channels.get b = m.channels.get a
  groups : ∀ a b, ρ a b → m.heap.tag a = .waitGroup → k.groups.get b = m.groups.get a
  runnable : k.runnable = m.runnable
  builtins : k.builtins = m.builtins
  output : k.output = m.output
  typedChannels : k.typedChannels = m.typedChannels

variable {ρ σ : Pairing} {m k l : Machine}

theorem Twins.renamed (t : Twins .plain ρ m k) : Renamed ρ m k :=
  ⟨t.toMatched, t.registers.matches_plain, t.threads, t.current, t.nextThread, t.channels, t.groups,
    t.runnable, t.builtins, t.output, t.typedChannels⟩

namespace Renamed

theorem flip (r : Renamed ρ m k) : Renamed ρ.flip k m where
  toMatched := r.toMatched.flip
  registers := r.registers.flip
  threads := by
    intro t
    have hrel := r.threads t
    generalize m.threads[t]? = x at hrel ⊢
    generalize k.threads[t]? = y at hrel ⊢
    cases hrel with
    | none => exact .none
    | some h => exact .some h.flip
  current := r.current.symm
  nextThread := r.nextThread.symm
  channels := fun b a hab htag => (r.channels a b hab ((r.similar a b hab).tag.symm.trans htag)).symm
  groups := fun b a hab htag => (r.groups a b hab ((r.similar a b hab).tag.symm.trans htag)).symm
  runnable := r.runnable.symm
  builtins := r.builtins.symm
  output := r.output.symm
  typedChannels := r.typedChannels.symm

theorem comp (r : Renamed ρ m k) (r' : Renamed σ k l) (hk : k.heap.Intact) :
    Renamed (ρ.comp σ) m l where
  toMatched := r.toMatched.comp r'.toMatched hk
  registers := r.registers.comp r'.registers
  threads := by
    intro t
    have hrel := r.threads t
    have hrel' := r'.threads t
    generalize m.threads[t]? = x at hrel ⊢
    generalize k.threads[t]? = y at hrel hrel'
    generalize l.threads[t]? = z at hrel' ⊢
    cases hrel with
    | none =>
      cases hrel'
      exact .none
    | some h =>
      cases hrel' with
      | some h' => exact .some (h.comp h')
  current := r'.current.trans r.current
  nextThread := r'.nextThread.trans r.nextThread
  channels := by
    rintro a c ⟨b, hab, hbc⟩ htag
    exact (r'.channels b c hbc ((r.similar a b hab).tag.trans htag)).trans (r.channels a b hab htag)
  groups := by
    rintro a c ⟨b, hab, hbc⟩ htag
    exact (r'.groups b c hbc ((r.similar a b hab).tag.trans htag)).trans (r.groups a b hab htag)
  runnable := r'.runnable.trans r.runnable
  builtins := r'.builtins.trans r.builtins
  output := r'.output.trans r.output
  typedChannels := r'.typedChannels.trans r.typedChannels

end Renamed

/-- A machine is its own twin on any footing that its return stack stands on. -/
theorem Sound.twins_self (hm : m.Sound) {f : Footing}
    (hframes : f.Stands m.heap.selves m.heap m.registers.frames m.registers.frames) :
    Twins f m.heap.selves m m where
  toMatched := hm.heap.matched_selves
  count := Nat.le_refl _
  registers := by
    have self := Registers.Matches.self hm.registers.inUse_root
    exact ⟨self.stack, rfl, self.environment, hframes⟩
  threads := by
    intro t
    cases ht : m.threads[t]? with
    | none => exact .none
    | some r => exact .some (.self (hm.threads t r ht).inUse_root)
  current := rfl
  nextThread := rfl
  channels := by
    rintro a _ ⟨rfl, -⟩ _
    rfl
  groups := by
    rintro a _ ⟨rfl, -⟩ _
    rfl
  runnable := rfl
  builtins := rfl
  output := rfl
  typedChannels := rfl

end Machine

end ChannelMachine
