import ChannelMachine.Proofs.Machine.Squares
import Mathlib.Logic.Equiv.Basic

/-!
# Machines up to the addresses of nodes and the numbers of threads

The two ends of a square are `Congruent`: they differ in where the nodes are and, if both threads started
one, in which of the new threads has which number.  Each live node has its partner, and partners hold
partners.

Nothing is said of nodes that no thread can reach, nor of the threads that wait for such a channel: one
order of the turns may have freed them where the other one has not.  Neither does it count who had the
last turn, for no thread runs.
-/

namespace ChannelMachine

open Heap (Pairing Partners Matched)

/-! ## Places -/

/-- The kind of node that threads wait for at a place. -/
def Place.tag : Place → Tag
  | .channel _ _ => .channel
  | .group _ => .waitGroup

/-- The same place of another node. -/
def Place.moved (b : Address) : Place → Place
  | .channel side _ => .channel side b
  | .group _ => .group b

@[simp]
theorem Place.moved_address (p : Place) : p.moved p.address = p := by
  cases p <;> rfl

@[simp]
theorem Place.address_moved (p : Place) (b : Address) : (p.moved b).address = b := by
  cases p <;> rfl

namespace Machine

/-- Two machines that differ in the addresses of their live nodes and in the numbers of their threads. -/
structure Congruent (ρ : Pairing) (σ : Equiv.Perm ThreadId) (m k : Machine) : Prop extends
    Matched ρ m.heap k.heap where
  /-- What is live in the first one has a partner. -/
  left : ∀ a, m.heap.Live m.roots a → ∃ b, ρ a b
  /-- What is live in the second one has a partner. -/
  right : ∀ b, k.heap.Live k.roots b → ∃ a, ρ a b
  /-- The registers. -/
  registers : m.registers.Matches ρ k.registers
  /-- The threads that do not run. -/
  threads : ∀ t : ThreadId, Option.Rel (Registers.Matches ρ) m.threads[t]? k.threads[σ t]?
  /-- The number of the next thread. -/
  nextThread : k.nextThread = m.nextThread
  /-- The threads that wait for channels and wait-groups, in the same order. -/
  queue : ∀ p b, ρ p.address b → m.heap.tag p.address = p.tag →
    k.queue (p.moved b) = (m.queue p).map σ
  /-- The threads to be made ready. -/
  runnable : k.runnable = m.runnable.map σ
  /-- The builtins. -/
  builtins : k.builtins = m.builtins
  /-- What has been printed. -/
  output : k.output = m.output
  /-- Whether channels are typed. -/
  typedChannels : k.typedChannels = m.typedChannels

/-! ## The numbers of new threads -/

/-- If two threads start one each, each of the new threads has the number in one order that the other one
has in the other order. -/
def renumber : Option Registers → Option Registers → ThreadId → Equiv.Perm ThreadId
  | some _, some _, n => Equiv.swap n (n + 1)
  | _, _, _ => Equiv.refl ThreadId

section Renumber

variable {r s : Option Registers} {n x : ThreadId}

/-- Only the numbers of new threads change. -/
theorem renumber_of_ne (hr : x = n → r = none) (hs : x = n + r.toList.length → s = none) :
    renumber r s n x = x := by
  cases r with
  | none => cases s <;> rfl
  | some =>
    cases s with
    | none => rfl
    | some =>
      refine Equiv.swap_apply_of_ne_of_ne (fun hx => ?_) fun hx => ?_
      · cases hr hx
      · cases hs hx

/-- The numbers that were given before stay. -/
theorem renumber_of_lt (hx : x < n) : renumber r s n x = x :=
  renumber_of_ne (fun h => absurd h (Nat.ne_of_lt hx))
    fun h => absurd h (Nat.ne_of_lt (Nat.lt_of_lt_of_le hx (Nat.le_add_right n _)))

/-- A thread that is started first, and its number if it is started second. -/
theorem renumber_first (hr : r ≠ none) : renumber r s n n = n + s.toList.length := by
  cases r with
  | none => exact absurd rfl hr
  | some =>
    cases s with
    | none => rfl
    | some => exact Equiv.swap_apply_left n (n + 1)

/-- A thread that is started second, and its number if it is started first. -/
theorem renumber_second (hs : s ≠ none) : renumber r s n (n + r.toList.length) = n := by
  cases s with
  | none => exact absurd rfl hs
  | some =>
    cases r with
    | none => rfl
    | some => exact Equiv.swap_apply_right n (n + 1)

theorem renumber_renumber (r s : Option Registers) (n x : ThreadId) :
    renumber r s n (renumber r s n x) = x := by
  cases r with
  | none => cases s <;> rfl
  | some =>
    cases s with
    | none => rfl
    | some => exact Equiv.swap_apply_self n (n + 1) x

theorem map_renumber {ts : List ThreadId} (h : ∀ x ∈ ts, x < n) : ts.map (renumber r s n) = ts :=
  (List.map_congr_left fun x hx => renumber_of_lt (h x hx)).trans (List.map_id ts)

end Renumber

/-! ## Registers -/

variable {m m₁ m₂ k l : Machine} {t u x : ThreadId} {c d : Effect} {f f' g g' : Nat → Address}
  {ρ : Pairing} {r r' : Registers}

/-- What the threads in the table use is live. -/
theorem live_table (hr : m.threads[t]? = some r) : ∀ a ∈ r.roots, m.heap.Live m.roots a :=
  fun _ ha => .root (mem_threadRoots.2 (.inr ⟨t, r, hr, ha⟩))

theorem mem_roots_placed {o : Outline} {y : Ref} (hy : y ∈ o.refs) (f : Nat → Address) :
    y.placed f ∈ (o.placed f).roots := by
  rw [Registers.mem_roots]
  rcases List.mem_append.1 hy with hy | hy
  · exact .inl (List.mem_map_of_mem hy)
  · rcases List.mem_cons.1 hy with rfl | hy
    · exact .inr (.inl rfl)
    · exact .inr (.inr (List.mem_map_of_mem hy))

/-- Registers with the same outline match where all that stands in them has its partner. -/
theorem matches_placed {o : Outline} (h : ∀ y ∈ o.refs, ρ (y.placed f) (y.placed g)) :
    (o.placed f).Matches ρ (o.placed g) where
  stack := .map fun y hy => h y (List.mem_append_left _ hy)
  pc := rfl
  environment := h _ (List.mem_append_right _ (List.mem_cons_self ..))
  frames := .map fun y hy => h y (List.mem_append_right _ (List.mem_cons_of_mem _ hy))

namespace Square

variable (s : Square m m₁ m₂ k l t u c d f f' g g')

include s

/-- The first thread keeps its registers while the second one has its turn. -/
theorem kept_left : k.threads[t]? = m₁.threads[t]? := by
  refine s.left'.other t s.ne fun h => ?_
  rw [s.left.nextThread] at h
  exact absurd h (Nat.ne_of_lt (Nat.lt_of_lt_of_le s.bound.1 (Nat.le_add_right _ _)))

/-- The registers of the first thread match at both ends. -/
theorem own : Option.Rel (Registers.Matches s.ends) k.threads[t]? l.threads[t]? := by
  rw [s.kept_left, s.left.own, s.right'.own]
  split
  next => exact .none
  next hp =>
    have hleft : m₁.threads[t]? = some (c.registers.placed f) := s.left.own.trans (if_neg hp)
    have hk : k.threads[t]? = some (c.registers.placed f) := s.kept_left.trans hleft
    have hl : l.threads[t]? = some (c.registers.placed g) := s.right'.own.trans (if_neg hp)
    refine .some (matches_placed fun y hy => ?_)
    have hy₁ := live_table hleft _ (mem_roots_placed hy f)
    refine ⟨live_table hk _ (mem_roots_placed hy f), live_table hl _ (mem_roots_placed hy g), ?_⟩
    cases y with
    | known a => exact .old (s.left.registers _ hy) hy₁ (s.right'.registers _ hy)
    | made i => exact .first (s.left.registers _ hy) hy₁

/-- The thread that the first one starts has the same registers at both ends. -/
theorem begun (hc : c.started = some r) : k.threads[m.nextThread]? = some r ∧
    l.threads[m₂.nextThread]? = some r ∧ r.Matches s.ends r := by
  have hleft := s.left.begun r hc
  have hl := s.right'.begun r hc
  have hk : k.threads[m.nextThread]? = some r := by
    rw [s.left'.other m.nextThread (Nat.ne_of_gt s.bound.2) fun h => ?_, hleft]
    rw [s.left.nextThread, hc] at h
    exact absurd h (Nat.ne_of_lt (Nat.lt_succ_self _))
  exact ⟨hk, hl, Registers.Matches.refl fun a ha => ⟨live_table hk a ha, live_table hl a ha,
    .old (s.left.started r hc a ha) (live_table hleft a ha) (s.right'.started r hc a ha)⟩⟩

/-- The other threads have kept their registers. -/
theorem rest_left (ht : x ≠ t) (hu : x ≠ u) (hc : x = m.nextThread → c.started = none)
    (hd : x = m₁.nextThread → d.started = none) : k.threads[x]? = m.threads[x]? :=
  (s.left'.other x hu hd).trans (s.left.other x ht hc)

/-- Who has which number at the other end. -/
def numbers (_ : Square m m₁ m₂ k l t u c d f f' g g') : Equiv.Perm ThreadId :=
  renumber c.started d.started m.nextThread

theorem numbers_of_lt (hx : x < m.nextThread) : s.numbers x = x := renumber_of_lt hx

theorem numbers_numbers (x : ThreadId) : s.numbers (s.numbers x) = x := renumber_renumber _ _ _ x

theorem numbers_first (hc : c.started ≠ none) : s.numbers m.nextThread = m₂.nextThread :=
  (renumber_first hc).trans s.right.nextThread.symm

theorem numbers_second (hd : d.started ≠ none) : s.numbers m₁.nextThread = m.nextThread := by
  rw [s.left.nextThread]
  exact renumber_second hd

theorem matches_flip (h : r.Matches s.flip.ends r') : r'.Matches s.ends r :=
  h.flip.imp fun _ _ _ hab => s.flip.ends_flip hab

/-- What is no number of a new thread in one order is none in the other order. -/
theorem old_flip (hc : x = m.nextThread → c.started = none) (hd : x = m₁.nextThread → d.started = none) :
    (x = m.nextThread → d.started = none) ∧ (x = m₂.nextThread → c.started = none) := by
  have hleft := s.left.nextThread
  have hright := s.right.nextThread
  cases hc' : c.started with
  | none =>
    rw [hc'] at hleft
    exact ⟨fun hx => hd (hx.trans hleft.symm), fun _ => rfl⟩
  | some r =>
    have hne : x ≠ m.nextThread := fun hx => Option.some_ne_none r (hc'.symm.trans (hc hx))
    refine ⟨fun hx => absurd hx hne, fun hx => ?_⟩
    rw [hc'] at hleft
    cases hd' : d.started with
    | none =>
      rw [hd'] at hright
      exact absurd (hx.trans hright) hne
    | some r' =>
      rw [hd'] at hright
      exact absurd (hd'.symm.trans (hd (hx.trans (hright.trans hleft.symm)))) (Option.some_ne_none r')

/-- A thread that was neither started nor had its turn has the same registers at both ends. -/
theorem rest_both (ht : x ≠ t) (hu : x ≠ u) (hc : x = m.nextThread → c.started = none)
    (hd : x = m₁.nextThread → d.started = none) :
    Option.Rel (Registers.Matches s.ends) k.threads[x]? l.threads[s.numbers x]? := by
  have hx : s.numbers x = x := renumber_of_ne hc fun h => hd (h.trans s.left.nextThread.symm)
  obtain ⟨hd', hc'⟩ := s.old_flip hc hd
  have hk := s.rest_left ht hu hc hd
  have hl : l.threads[x]? = m.threads[x]? := s.flip.rest_left hu ht hd' hc'
  rw [hx, hk, hl]
  cases hr : m.threads[x]? with
  | none => exact .none
  | some r =>
    have hleft : m₁.threads[x]? = some r := (s.left.other x ht hc).trans hr
    have hright : m₂.threads[x]? = some r := (s.right.other x hu hd').trans hr
    exact .some (.refl fun a ha => ⟨live_table (hk.trans hr) a ha, live_table (hl.trans hr) a ha,
      .old (live_table hr a ha) (live_table hleft a ha) (live_table hright a ha)⟩)

/-- The registers of all threads match. -/
theorem threads (x : ThreadId) :
    Option.Rel (Registers.Matches s.ends) k.threads[x]? l.threads[s.numbers x]? := by
  by_cases ht : x = t
  · subst ht
    rw [s.numbers_of_lt s.bound.1]
    exact s.own
  by_cases hu : x = u
  · subst hu
    rw [s.numbers_of_lt s.bound.2]
    have hrel := s.flip.own
    generalize k.threads[x]? = y at hrel ⊢
    generalize l.threads[x]? = z at hrel ⊢
    cases hrel with
    | none => exact .none
    | some h => exact .some (s.matches_flip h)
  by_cases hc : x = m.nextThread → c.started = none
  · by_cases hd : x = m₁.nextThread → d.started = none
    · exact s.rest_both ht hu hc hd
    · obtain ⟨rfl, hne⟩ := Classical.not_imp.1 hd
      obtain ⟨r, hr⟩ := Option.ne_none_iff_exists'.1 hne
      obtain ⟨hl, hk, hmatch⟩ := s.flip.begun hr
      rw [s.numbers_second hne, hk, hl]
      exact .some (s.matches_flip hmatch)
  · obtain ⟨rfl, hne⟩ := Classical.not_imp.1 hc
    obtain ⟨r, hr⟩ := Option.ne_none_iff_exists'.1 hne
    obtain ⟨hk, hl, hmatch⟩ := s.begun hr
    rw [s.numbers_first hne, hk, hl]
    exact .some hmatch

/-! ## Queues -/

/-- Old queues are the same in both orders, for only one of the threads changes each of them. -/
theorem queue_old (p : Place) (live : m.heap.Live m.roots p.address)
    (left : m₁.heap.Live m₁.roots p.address) (right : m₂.heap.Live m₂.roots p.address) :
    l.queue p = k.queue p := by
  rw [s.left'.queue p left, s.left.queue p live, s.right'.queue p right, s.right.queue p live]
  by_cases hp : c.leave p ≠ 0 ∨ c.joins = some p
  · rw [s.clear.leave p hp, if_neg (s.clear.joins p hp), List.drop_zero, List.drop_zero, List.append_nil,
      List.append_nil]
  · obtain ⟨hleave, hjoins⟩ := not_or.1 hp
    rw [not_not.1 hleave, if_neg hjoins, List.drop_zero, List.drop_zero, List.append_nil, List.append_nil]

/-- The threads in an old queue have old numbers. -/
theorem lt_of_mem_queue (p : Place) (live : m.heap.Live m.roots p.address)
    (left : m₁.heap.Live m₁.roots p.address) : ∀ x ∈ k.queue p, x < m.nextThread := by
  -- Whoever joins is one of the two threads.
  have hjoins : ∀ {x y : ThreadId} {q : Prop} [Decidable q], y < m.nextThread →
      x ∈ (if q then [y] else []) → x < m.nextThread := by
    intro x y q _ hy hx
    split at hx
    next => exact List.mem_singleton.1 hx ▸ hy
    next => cases hx
  intro x hx
  rw [s.left'.queue p left, s.left.queue p live] at hx
  rcases List.mem_append.1 hx with hx | hx
  · rcases List.mem_append.1 (List.mem_of_mem_drop hx) with hx | hx
    · exact s.queued p x (List.mem_of_mem_drop hx)
    · exact hjoins s.bound.1 hx
  · exact hjoins s.bound.2 hx

/-- No thread waits for what the first thread made. -/
theorem queue_new {i : Nat} {header : Header} {words : List Ref} (p : Place)
    (hi : c.made[i]? = some (.node header words)) (htag : header.tag = p.tag)
    (left : m₁.heap.Live m₁.roots (f i)) : k.queue (p.moved (f i)) = [] ∧ l.queue (p.moved (g i)) = [] := by
  have hempty : ∀ {j j' : Machine} {φ : Nat → Address} {x : ThreadId}, Turned j j' x c φ →
      j'.queue (p.moved (φ i)) = [] := by
    intro j j' φ x turned
    obtain ⟨hchannel, hgroup⟩ := turned.newQueue i header words hi
    cases p with
    | channel side a => exact hchannel htag side
    | group a => exact hgroup htag
  have hnot : ¬ m.heap.Live m.roots (f i) := (s.left.heap.node i header words hi).not_live
  refine ⟨?_, hempty s.right'⟩
  rw [s.left'.queue _ (by simpa using left), hempty s.left, List.drop_nil, List.nil_append, if_neg]
  intro hjoins
  exact hnot (by simpa using s.locals'.joins _ hjoins)

/-- The same threads wait for partners. -/
theorem queue (p : Place) {b : Address} (hab : s.ends p.address b) (htag : k.heap.tag p.address = p.tag) :
    l.queue (p.moved b) = (k.queue p).map s.numbers := by
  have hstring : k.heap.tag p.address ≠ .string := by
    rw [htag]
    cases p <;> exact Tag.noConfusion
  rcases s.origin hab.2.2 hab.1 hstring with ⟨left, live, right, rfl⟩ | ⟨left, -, i, header, words, hi, ha, rfl⟩ |
    ⟨-, right, i, header, words, hi, ha, rfl⟩
  · rw [Place.moved_address, s.queue_old p live left right]
    exact (map_renumber (s.lt_of_mem_queue p live left)).symm
  · rw [ha] at left htag
    have holds := s.holds_new hi left
    obtain ⟨hk, hl⟩ := s.queue_new p hi ((congrArg Header.tag holds.header).symm.trans htag) left
    rw [hl, ← p.moved_address, ha, hk]
    rfl
  · rw [ha] at htag
    have new := s.left'.heap.node i header words hi
    obtain ⟨hl, hk⟩ := s.flip.queue_new p hi ((congrArg Header.tag new.header).symm.trans htag) right
    rw [hl, ← p.moved_address, ha, hk]
    rfl

/-! ## The ends -/

/-- No thread has the registers. -/
theorem registers : k.registers.Matches s.ends l.registers := by
  rw [s.left'.rest.idle, s.right'.rest.idle]
  refine .refl fun a ha => ?_
  obtain rfl : a = Heap.undefined := List.mem_singleton.1 ha
  exact s.matched.constant s.left'.rest.heap.toIntact (i := 4) (by decide)

/-- What the threads use at one end has its partner at the other end. -/
theorem covers : s.ends.Covers k.roots l.roots := by
  intro b hb
  rcases mem_threadRoots.1 hb with hb | ⟨y, r, hr, hb⟩
  · obtain ⟨a, ha, hab⟩ := s.registers.covers b hb
    exact ⟨a, mem_threadRoots.2 (.inl ha), hab⟩
  · have hrel := s.threads (s.numbers y)
    rw [s.numbers_numbers, hr] at hrel
    generalize hr' : k.threads[s.numbers y]? = z at hrel
    cases hrel with
    | some hmatch =>
      obtain ⟨a, ha, hab⟩ := hmatch.covers b hb
      exact ⟨a, mem_threadRoots.2 (.inr ⟨_, _, hr', ha⟩), hab⟩

theorem paired : Heap.Paired s.ends k.heap l.heap k.roots l.roots where
  toMatched := s.matched
  left := s.left'.rest.heap
  right := s.right'.rest.heap
  left_roots := s.left'.rest.inUse_root
  roots := s.covers
  building := by
    rw [s.right'.rest.building]
    exact fun b hb => absurd hb List.not_mem_nil

/-- Both orders print the same. -/
theorem output : l.output = k.output := by
  rw [s.right'.output, s.right.output, s.left'.output, s.left.output]
  rcases s.clear.printed with h | h
  · rw [h, String.append_empty, String.append_empty]
  · rw [h, String.append_empty, String.append_empty]

/-- The two ends are the same up to addresses of nodes and numbers of new threads. -/
theorem congruent : Congruent s.ends s.numbers k l where
  toMatched := s.matched
  left := by
    intro a ha
    obtain ⟨b, hba, -⟩ := s.flip.paired.exists_left ha
    exact ⟨b, s.flip.ends_flip hba⟩
  right := by
    intro b hb
    obtain ⟨a, hab, -⟩ := s.paired.exists_left hb
    exact ⟨a, hab⟩
  registers := s.registers
  threads := s.threads
  nextThread := by
    rw [s.right'.nextThread, s.right.nextThread, s.left'.nextThread, s.left.nextThread]
    exact Nat.add_right_comm _ _ _
  queue := fun p _ hab htag => s.queue p hab htag
  runnable := by
    rw [s.left'.runnable, s.right'.runnable]
    rfl
  builtins := by rw [s.right'.builtins, s.right.builtins, s.left'.builtins, s.left.builtins]
  output := s.output
  typedChannels := by
    rw [s.right'.typedChannels, s.right.typedChannels, s.left'.typedChannels, s.left.typedChannels]

/-- The threads that the first effect makes ready are the same in both orders. -/
theorem ready_first : c.woken ++ (c.started.toList.map fun _ => m₂.nextThread) =
    (c.woken ++ (c.started.toList.map fun _ => m.nextThread)).map s.numbers := by
  rw [List.map_append, numbers, map_renumber s.locals.woken]
  cases hc : c.started with
  | none => rfl
  | some r =>
    have hnew := s.numbers_first (hc ▸ Option.some_ne_none r)
    rw [numbers, hc] at hnew
    exact congrArg (fun x => c.woken ++ [x]) hnew.symm

/-- The threads that the second effect makes ready are the same in both orders. -/
theorem ready_second : d.woken ++ (d.started.toList.map fun _ => m.nextThread) =
    (d.woken ++ (d.started.toList.map fun _ => m₁.nextThread)).map s.numbers := by
  rw [List.map_append, numbers, map_renumber s.locals'.woken]
  cases hd : d.started with
  | none => rfl
  | some r =>
    have hnew := s.numbers_second (hd ▸ Option.some_ne_none r)
    rw [numbers, hd] at hnew
    exact congrArg (fun x => d.woken ++ [x]) hnew.symm

end Square

end Machine

end ChannelMachine
