import ChannelMachine.Proofs.Pairing.Heap

/-!
# Return stacks that differ in spent frames

A call frame is spent if it resumes where a thread returns at once: the thread only passes through it
on its way to the next call frame, whatever block frames lie in between.  A tail call leaves such a
frame out.  `Footing.Stands` compares two return stacks that differ in nothing else.
-/

namespace ChannelMachine

open Heap (Pairing Partners)

/-- Frames keep their kinds, and the call frames among them resume where they did. -/
def Heap.SameFrames (h k : Heap) (frames : List Address) : Prop :=
  ∀ a ∈ frames, k.tag a = h.tag a ∧ (h.tag a = .callframe → k.payload a = h.payload a)

namespace Heap.SameFrames

variable {h k l : Heap} {frames : List Address}

theorem of_same (same : ∀ a ∈ frames, SameNode h k a) : SameFrames h k frames :=
  fun a ha => ⟨(same a ha).tag, fun _ => (same a ha).payload⟩

theorem of_arena (same : SameArena h k) : SameFrames h k frames :=
  fun a _ => ⟨same.tag a, fun _ => congrArg Header.payload (same.header a)⟩

theorem trans (first : SameFrames h k frames) (second : SameFrames k l frames) :
    SameFrames h l frames := by
  intro a ha
  obtain ⟨htag, hpayload⟩ := first a ha
  obtain ⟨htag', hpayload'⟩ := second a ha
  exact ⟨htag'.trans htag, fun hcall => (hpayload' (htag.trans hcall)).trans (hpayload hcall)⟩

theorem mono {some : List Address} (same : SameFrames h k frames) (hsome : ∀ a ∈ some, a ∈ frames) :
    SameFrames h k some :=
  fun a ha => same a (hsome a ha)

end Heap.SameFrames

/-- What two return stacks stand on. -/
structure Footing where
  /-- The indices at which a thread returns at once. -/
  returns : Nat → Prop
  /-- Where the topmost frame at the bottom resumes. -/
  resume : Nat
  /-- The frames at the bottom of the first stack. -/
  left : List Address
  /-- The frames at the bottom of the second stack. -/
  right : List Address

namespace Footing

/-- No frame is spent, and nothing is known to lie at the bottom. -/
def plain : Footing := ⟨fun _ => False, 0, [], []⟩

/-- Two return stacks hold partners, but for spent frames of the first one.  If something lies at the
bottom of them, a call frame is its top. -/
inductive Stands (f : Footing) (ρ : Pairing) (h : Heap) : List Address → List Address → Prop where
  | bottom {l l' : List Address} : l = f.left → l' = f.right → Partners ρ l l' →
      (∀ a, l.head? = some a → h.tag a = .callframe ∧ (h.payload a).toNat = f.resume) →
      Stands f ρ h l l'
  | both {a b : Address} {l l' : List Address} : ρ a b → Stands f ρ h l l' →
      Stands f ρ h (a :: l) (b :: l')
  | spent {call next : Address} {blocks l l' : List Address} : h.tag call = .callframe →
      f.returns (h.payload call).toNat → (∀ a ∈ blocks, h.tag a = .blockframe) →
      h.tag next = .callframe → Stands f ρ h (next :: l) l' →
      Stands f ρ h (call :: (blocks ++ next :: l)) l'

variable {f : Footing} {ρ σ : Pairing} {h k : Heap} {l l' : List Address}

/-- Frames that hold partners on top of what lies at the bottom. -/
theorem stands_append {top top' : List Address} (htop : Partners ρ top top')
    (hbottom : Partners ρ f.left f.right) (hhead : ∀ a, f.left.head? = some a →
      h.tag a = .callframe ∧ (h.payload a).toNat = f.resume) :
    f.Stands ρ h (top ++ f.left) (top' ++ f.right) := by
  induction htop with
  | nil => exact .bottom rfl rfl hbottom hhead
  | cons hab _ ih => exact .both hab ih

/-- Return stacks that hold partners. -/
theorem stands_of_partners (hl : Partners ρ l l') : Footing.plain.Stands ρ h l l' := by
  induction hl with
  | nil => exact .bottom rfl rfl .nil (by rintro _ ⟨⟩)
  | cons hab _ ih => exact .both hab ih

namespace Stands

theorem partners (s : Footing.plain.Stands ρ h l l') : Partners ρ l l' := by
  induction s with
  | bottom _ _ hl => exact hl
  | both hab _ ih => exact .cons hab ih
  | spent _ hreturns => exact hreturns.elim

theorem covers (s : f.Stands ρ h l l') : ρ.Covers l l' := by
  induction s with
  | bottom _ _ hl => exact hl.covers
  | both hab _ ih => exact ih.cons hab
  | spent _ _ _ _ _ ih =>
    intro b hb
    obtain ⟨a, ha, hab⟩ := ih b hb
    exact ⟨a, List.mem_cons_of_mem _ (List.mem_append_right _ ha), hab⟩

theorem imp (s : f.Stands ρ h l l') (hρ : ∀ a b, b ∈ l' → ρ a b → σ a b)
    (same : h.SameFrames k l) : f.Stands σ k l l' := by
  induction s with
  | bottom hleft hright hl hhead =>
    refine .bottom hleft hright (hl.imp hρ) fun a ha => ?_
    obtain ⟨htag, hpayload⟩ := same a (List.mem_of_mem_head? ha)
    obtain ⟨hcall, hresume⟩ := hhead a ha
    exact ⟨htag.trans hcall, (congrArg UInt32.toNat (hpayload hcall)).trans hresume⟩
  | both hab _ ih =>
    refine .both (hρ _ _ (List.mem_cons_self ..) hab) (ih (fun a b hb => ?_) ?_)
    · exact hρ a b (List.mem_cons_of_mem _ hb)
    · exact same.mono fun a ha => List.mem_cons_of_mem _ ha
  | @spent call next blocks l l' hcall hreturns hblocks hnext _ ih =>
    have hbelow : ∀ a ∈ next :: l, a ∈ call :: (blocks ++ next :: l) := fun a ha =>
      List.mem_cons_of_mem _ (List.mem_append_right _ ha)
    obtain ⟨htag, hpayload⟩ := same call (List.mem_cons_self ..)
    refine .spent (htag.trans hcall) ?_ (fun a ha => ?_) ?_ (ih hρ (same.mono hbelow))
    · rw [hpayload hcall]
      exact hreturns
    · exact (same a (List.mem_cons_of_mem _ (List.mem_append_left _ ha))).1.trans (hblocks a ha)
    · exact (same next (hbelow _ (List.mem_cons_self ..))).1.trans hnext

theorem length_le (s : f.Stands ρ h l l') : f.left.length ≤ l.length := by
  induction s with
  | bottom hleft => exact Nat.le_of_eq (congrArg List.length hleft).symm
  | both _ _ ih => exact Nat.le_succ_of_le ih
  | spent _ _ _ _ _ ih =>
    rw [List.length_cons] at ih
    rw [List.length_cons, List.length_append, List.length_cons]
    omega

theorem length_right_le (s : f.Stands ρ h l l') : f.right.length ≤ l'.length := by
  induction s with
  | bottom _ hright => exact Nat.le_of_eq (congrArg List.length hright).symm
  | both _ _ ih => exact Nat.le_succ_of_le ih
  | spent _ _ _ _ _ ih => exact ih

theorem eq_nil (s : f.Stands ρ h [] l') : l' = [] ∧ f.left = [] := by
  cases s with
  | bottom hleft _ hpartners =>
    cases hpartners with
    | nil => exact ⟨rfl, hleft.symm⟩

/-- If a call frame lies on top of the first stack, one lies on top of the other. -/
theorem head_right {next : Address} (s : f.Stands ρ h (next :: l) l')
    (hnext : h.tag next = .callframe) :
    ∃ a b rest, l' = b :: rest ∧ ρ a b ∧ h.tag a = .callframe := by
  generalize hl : next :: l = top at s
  induction s generalizing next l with
  | bottom _ _ hpartners =>
    subst hl
    cases hpartners with
    | cons hab _ => exact ⟨_, _, _, rfl, hab, hnext⟩
  | both hab _ _ =>
    cases hl
    exact ⟨_, _, _, rfl, hab, hnext⟩
  | spent _ _ _ hbelow _ ih => exact ih hbelow rfl

/-- The frames above a call frame are left out of both stacks. -/
theorem dropWhile {p q : Address → Bool} (s : f.Stands ρ h l l') (hpq : ∀ a b, ρ a b → q b = p a)
    (hcall : ∀ a, h.tag a = .callframe → p a = false) :
    f.Stands ρ h (l.dropWhile p) (l'.dropWhile q) := by
  have hstop : ∀ {p : Address → Bool} {a : Address} {l : List Address}, p a = false →
      (a :: l).dropWhile p = a :: l := fun ha => List.dropWhile_cons_of_neg (by rw [ha]; decide)
  induction s with
  | bottom hleft hright hl hhead =>
    cases hl with
    | nil => exact .bottom hleft hright .nil hhead
    | cons hab hrest =>
      have ha := hcall _ (hhead _ rfl).1
      rw [hstop ha, hstop ((hpq _ _ hab).trans ha)]
      exact .bottom hleft hright (.cons hab hrest) hhead
  | both hab s ih =>
    rw [List.dropWhile_cons, List.dropWhile_cons, hpq _ _ hab]
    split
    · exact ih
    · exact .both hab s
  | spent htag hreturns hblocks hnext s _ =>
    obtain ⟨a, b, rest, rfl, hab, ha⟩ := s.head_right hnext
    rw [hstop (hcall _ htag), hstop ((hpq a b hab).trans (hcall a ha))]
    exact .spent htag hreturns hblocks hnext s

/-- A spent frame comes to lie on block frames that only the first stack still holds. -/
theorem push_spent {call : Address}
    (s : f.Stands ρ h (l.dropWhile fun a => h.tag a = .blockframe) l')
    (hkinds : ∀ a ∈ l, h.tag a = .blockframe ∨ h.tag a = .callframe)
    (hcall : h.tag call = .callframe) (hreturns : f.returns (h.payload call).toNat)
    (hbottom : f.left ≠ []) : f.Stands ρ h (call :: l) l' := by
  have hsplit := List.takeWhile_append_dropWhile (p := fun a => decide (h.tag a = .blockframe))
    (l := l)
  have hnext := List.head?_dropWhile_not (fun a => decide (h.tag a = .blockframe)) l
  have hblocks : ∀ a ∈ l.takeWhile fun a => h.tag a = .blockframe, h.tag a = .blockframe :=
    fun a ha => of_decide_eq_true (List.all_eq_true.1 List.all_takeWhile a ha)
  generalize hdrop : (l.dropWhile fun a => h.tag a = .blockframe) = below at s hsplit hnext
  cases below with
  | nil => exact absurd s.eq_nil.2 hbottom
  | cons next rest =>
    have hmem : next ∈ l := by
      rw [← hsplit]
      exact List.mem_append_right _ (List.mem_cons_self ..)
    rw [← hsplit]
    exact .spent hcall hreturns hblocks ((hkinds next hmem).resolve_left (by simpa using hnext)) s

end Stands

end Footing

end ChannelMachine
