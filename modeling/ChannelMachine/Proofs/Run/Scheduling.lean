import Mathlib.Data.List.Induction
import ChannelMachine.Proofs.Run.History

/-!
# Histories of the scheduler

The scheduler is used through a few calls, and it does not check in which order they come.  Whatever
the order is, no thread is listed twice, and the threads leave the queue in the order in which they
entered it (`Scheduler.KeepsOrder`).

A call that chooses a thread forgets the one that runs.  So no thread is lost if one is only chosen while
none runs, which is what every run does.
-/

namespace ChannelMachine

namespace Scheduler

/-- A call of the scheduler. -/
inductive Call where
  /-- A thread is made ready. -/
  | makeReady (t : ThreadId)
  /-- A ready thread is chosen to run. -/
  | next
  /-- The running thread goes back to the ready ones. -/
  | suspend
  /-- The running thread waits. -/
  | block
  /-- The running thread ends. -/
  | kill
  /-- A quantum is drawn. -/
  | draw
deriving DecidableEq, Repr

/-- The scheduler after it was asked for the next thread.  If there is none, it stays as it is. -/
def choose (s : Scheduler) : Scheduler :=
  match s.next with
  | .ok (_, s') => s'
  | .error _ => s

/-- The scheduler after a call. -/
def perform (s : Scheduler) : Call → Scheduler
  | .makeReady t => s.makeReady t
  | .next => s.choose
  | .suspend => s.suspend
  | .block => s.block
  | .kill => s.kill
  | .draw => s.draw.2

/-- The scheduler after some calls. -/
def after (s : Scheduler) (calls : List Call) : Scheduler := calls.foldl perform s

/-- The threads that enter the queue of the ready ones, in order. -/
def entries (s : Scheduler) : List Call → List ThreadId
  | [] => []
  | c :: rest => (s.perform c).ready.filter (· ∉ s.ready) ++ entries (s.perform c) rest

/-- The threads that leave it, in order. -/
def departures (s : Scheduler) : List Call → List ThreadId
  | [] => []
  | c :: rest => s.ready.filter (· ∉ (s.perform c).ready) ++ departures (s.perform c) rest

/-- A call made a thread ready, and no later one killed it. -/
def Alive (s : Scheduler) (calls : List Call) (t : ThreadId) : Prop :=
  ∃ before later, calls = before ++ .makeReady t :: later ∧ ∀ first rest,
    later = first ++ .kill :: rest → (s.after (before ++ .makeReady t :: first)).running ≠ some t

/-- A thread is only chosen while none runs. -/
def ChoosesIdle (s : Scheduler) (calls : List Call) : Prop :=
  ∀ before later, calls = before ++ .next :: later → (s.after before).running = none

/-- In how many places a thread is listed. -/
def places (s : Scheduler) (t : ThreadId) : Nat :=
  s.ready.count t + s.blocked.count t + s.running.toList.count t

/-! ## One call -/

section Call

variable {s : Scheduler} {t u : ThreadId}

theorem orderly_create (maxQuantum : Nat) (seed : UInt64) : (create maxQuantum seed).Orderly :=
  ⟨List.nodup_nil, List.nodup_nil, nofun, nofun⟩

theorem choose_cases (s : Scheduler) : (s.ready = [] ∧ s.choose = s) ∨ ∃ t, s.next = .ok (t, s.choose) := by
  cases hnext : s.next with
  | ok found => exact .inr ⟨found.1, by rw [choose, hnext]⟩
  | error e =>
    refine .inl ⟨?_, by rw [choose, hnext]⟩
    unfold next at hnext
    split at hnext
    next => cases hnext
    next hready => exact hready

theorem suspend_cases (s : Scheduler) : (s.running = none ∧ s.suspend = s) ∨
    ∃ t, s.running = some t ∧ s.suspend = { s with running := none, ready := s.ready ++ [t] } := by
  unfold suspend
  split
  next t hrunning => exact .inr ⟨t, hrunning, rfl⟩
  next hrunning => exact .inl ⟨hrunning, rfl⟩

theorem block_cases (s : Scheduler) : (s.running = none ∧ s.block = s) ∨
    ∃ t, s.running = some t ∧ s.block = { s with running := none, blocked := s.blocked.insert t } := by
  unfold block
  split
  next t hrunning => exact .inr ⟨t, hrunning, rfl⟩
  next hrunning => exact .inl ⟨hrunning, rfl⟩

theorem Orderly.perform (hs : s.Orderly) (c : Call) : (s.perform c).Orderly := by
  cases c with
  | makeReady t => exact hs.makeReady t
  | next =>
    change s.choose.Orderly
    obtain ⟨-, heq⟩ | ⟨t, hnext⟩ := s.choose_cases
    · exact heq.symm ▸ hs
    · exact hs.next hnext
  | suspend => exact hs.suspend
  | block => exact hs.block
  | kill => exact hs.kill
  | draw =>
    obtain ⟨random, heq⟩ := s.exists_draw
    change s.draw.2.Orderly
    rw [heq]
    exact ⟨hs.ready, hs.blocked, hs.disjoint, hs.running⟩

/-- A call adds a thread at the end of the queue, takes the first one out, or leaves it alone. -/
theorem ready_perform (hs : s.Orderly) (c : Call) : (s.perform c).ready = s.ready ∨
    (∃ t, t ∉ s.ready ∧ (s.perform c).ready = s.ready ++ [t]) ∨
    ∃ t, s.ready = t :: (s.perform c).ready := by
  cases c with
  | makeReady t =>
    by_cases hor : s.running = some t ∨ t ∈ s.ready
    · exact .inl (by rw [perform, makeReady, if_pos hor])
    · exact .inr (.inl ⟨t, (not_or.1 hor).2, by rw [perform, makeReady, if_neg hor]⟩)
  | next =>
    obtain ⟨-, heq⟩ | ⟨t, hnext⟩ := s.choose_cases
    · exact .inl (congrArg ready heq)
    · exact .inr (.inr ⟨t, (of_next hnext).1⟩)
  | suspend =>
    obtain ⟨-, heq⟩ | ⟨t, hrunning, heq⟩ := s.suspend_cases
    · exact .inl (congrArg ready heq)
    · exact .inr (.inl ⟨t, (hs.running t hrunning).1, congrArg ready heq⟩)
  | block =>
    obtain ⟨-, heq⟩ | ⟨t, -, heq⟩ := s.block_cases
    all_goals exact .inl ((congrArg ready heq :))
  | kill => exact .inl rfl
  | draw => exact .inl s.draw_snd.1

/-- A call keeps the order of the queue. -/
theorem ready_append_entered (hs : s.Orderly) (c : Call) :
    s.ready ++ (s.perform c).ready.filter (· ∉ s.ready) =
      s.ready.filter (· ∉ (s.perform c).ready) ++ (s.perform c).ready := by
  have hnone : ∀ l m : List ThreadId, (∀ t ∈ l, t ∈ m) → l.filter (· ∉ m) = [] := by
    intro l m h
    exact List.filter_eq_nil_iff.2 fun t ht => by simp [h t ht]
  have hall := hnone s.ready s.ready fun _ => id
  rcases ready_perform hs c with h | ⟨t, ht, h⟩ | ⟨t, h⟩
  · rw [h, hall, List.append_nil, List.nil_append]
  · have hleft := hnone s.ready (s.ready ++ [t]) fun u => List.mem_append_left _
    have hone : [t].filter (· ∉ s.ready) = [t] := by simp [ht]
    rw [h, List.filter_append, hall, hone, hleft, List.nil_append, List.nil_append]
  · have hnot : t ∉ (s.perform c).ready := (List.nodup_cons.1 (h ▸ hs.ready)).1
    rw [h]
    generalize (s.perform c).ready = rest at hnot
    have hright := hnone rest (t :: rest) fun u => List.mem_cons_of_mem t
    have hone : (t :: rest).filter (· ∉ rest) = [t] := by
      rw [List.filter_cons_of_pos (by simpa using hnot), hnone rest rest fun _ => id]
    rw [hright, hone, List.append_nil, List.singleton_append]

theorem places_eq_one_iff (hs : s.Orderly) : s.places t = 1 ↔
    t ∈ s.ready ∨ t ∈ s.blocked ∨ s.running = some t := by
  have hready := hs.ready.count (a := t)
  have hblocked := hs.blocked.count (a := t)
  have hdisjoint := hs.disjoint t
  have hrunning := hs.running t
  cases h : s.running with
  | none =>
    simp only [places, hready, hblocked, h, Option.toList_none, List.count_nil]
    grind
  | some u =>
    simp only [places, hready, hblocked, h, Option.toList_some, List.count_singleton]
    grind

/-- What a call does to the threads that are listed, if one is only chosen while none runs. -/
theorem listed_perform (hs : s.Orderly) (c : Call) (hidle : c = .next → s.running = none) :
    (s.perform c).places t = 1 ↔
      c = .makeReady t ∨ (s.places t = 1 ∧ ¬ (c = .kill ∧ s.running = some t)) := by
  rw [places_eq_one_iff hs, places_eq_one_iff (hs.perform c)]
  cases c with
  | makeReady u =>
    simp only [perform, mem_ready_makeReady, mem_blocked_makeReady hs, running_makeReady]
    grind
  | next =>
    have hnone := hidle rfl
    simp only [perform]
    obtain ⟨-, heq⟩ | ⟨u, hnext⟩ := s.choose_cases
    · grind
    · obtain ⟨hready, hblocked, hrunning⟩ := of_next hnext
      grind
  | suspend =>
    simp only [perform]
    obtain ⟨-, heq⟩ | ⟨u, hrunning, heq⟩ := s.suspend_cases
    · grind
    · grind
  | block =>
    simp only [perform]
    obtain ⟨-, heq⟩ | ⟨u, hrunning, heq⟩ := s.block_cases
    · grind
    · grind
  | kill =>
    have hrunning := hs.running t
    simp only [perform, kill]
    grind
  | draw =>
    obtain ⟨hready, hblocked, hrunning⟩ := s.draw_snd
    simp [perform, hready, hblocked, hrunning]

end Call

/-! ## Many calls -/

section Calls

variable {s : Scheduler} {t : ThreadId} {calls : List Call}

theorem after_concat (s : Scheduler) (calls : List Call) (c : Call) :
    s.after (calls ++ [c]) = (s.after calls).perform c := by
  rw [after, List.foldl_append]
  rfl

theorem Orderly.after (hs : s.Orderly) (calls : List Call) : (s.after calls).Orderly := by
  induction calls generalizing s with
  | nil => exact hs
  | cons c rest ih => exact ih (hs.perform c)

/-- The threads leave the queue in the order in which they entered it. -/
theorem ready_append_entries (hs : s.Orderly) (calls : List Call) :
    s.ready ++ s.entries calls = s.departures calls ++ (s.after calls).ready := by
  induction calls generalizing s with
  | nil => simp [entries, departures, after]
  | cons c rest ih =>
    rw [entries, departures, ← List.append_assoc, ready_append_entered hs c, List.append_assoc,
      ih (hs.perform c), ← List.append_assoc]
    rfl

/-- A list that ends with an element and has another one inside. -/
theorem concat_eq_append_cons {α : Type} {l before later : List α} {x y : α}
    (h : l ++ [y] = before ++ x :: later) :
    (before = l ∧ x = y ∧ later = []) ∨ ∃ rest, l = before ++ x :: rest ∧ later = rest ++ [y] := by
  rcases List.eq_nil_or_concat later with rfl | ⟨rest, z, rfl⟩
  · obtain ⟨rfl, heq⟩ := List.append_inj' h rfl
    exact .inl ⟨rfl, (List.singleton_inj.1 heq).symm, rfl⟩
  · rw [List.concat_eq_append, ← List.cons_append, ← List.append_assoc] at h
    obtain ⟨rfl, heq⟩ := List.append_inj' h rfl
    obtain rfl := List.singleton_inj.1 heq
    exact .inr ⟨rest, rfl, List.concat_eq_append⟩

theorem choosesIdle_concat {c : Call} : s.ChoosesIdle (calls ++ [c]) ↔
    s.ChoosesIdle calls ∧ (c = .next → (s.after calls).running = none) := by
  constructor
  · refine fun h => ⟨fun before later heq => ?_, fun hc => h calls [] (by rw [hc])⟩
    exact h before (later ++ [c]) (by rw [heq, List.append_assoc, List.cons_append])
  · rintro ⟨hcalls, hlast⟩ before later heq
    rcases concat_eq_append_cons heq with ⟨rfl, rfl, -⟩ | ⟨rest, hrest, -⟩
    · exact hlast rfl
    · exact hcalls before rest hrest

theorem alive_concat {c : Call} : s.Alive (calls ++ [c]) t ↔
    c = .makeReady t ∨ (s.Alive calls t ∧ ¬ (c = .kill ∧ (s.after calls).running = some t)) := by
  constructor
  · rintro ⟨before, later, heq, hlater⟩
    rcases concat_eq_append_cons heq with ⟨-, hc, -⟩ | ⟨rest, rfl, rfl⟩
    · exact .inl hc.symm
    · refine .inr ⟨⟨before, rest, rfl, fun first rest' hrest => ?_⟩, fun ⟨hc, hrunning⟩ => ?_⟩
      · exact hlater first (rest' ++ [c]) (by rw [hrest, List.append_assoc, List.cons_append])
      · exact hlater rest [] (by rw [hc]) hrunning
  · rintro (rfl | ⟨⟨before, later, rfl, hlater⟩, hnot⟩)
    · exact ⟨calls, [], rfl, fun first rest h => by simp at h⟩
    · refine ⟨before, later ++ [c], by simp, fun first rest heq => ?_⟩
      rcases concat_eq_append_cons heq with ⟨rfl, hc, -⟩ | ⟨rest', hrest, -⟩
      · exact fun hrunning => hnot ⟨hc.symm, hrunning⟩
      · exact hlater first rest' hrest

/-- If a thread is only chosen while none runs, those that are alive are listed in one place, and no
others are listed. -/
theorem places_after_eq_one_iff (hs : s.Orderly) (hnew : ∀ t, s.places t = 0)
    (hidle : s.ChoosesIdle calls) : (s.after calls).places t = 1 ↔ s.Alive calls t := by
  induction calls using List.reverseRecOn with
  | nil =>
    have hplaces : (s.after []).places t = 0 := hnew t
    simp [hplaces, Alive]
  | append_singleton calls c ih =>
    obtain ⟨hcalls, hlast⟩ := choosesIdle_concat.1 hidle
    rw [after_concat, listed_perform (hs.after calls) c hlast, ih hcalls, alive_concat]

end Calls

/-! ## The law -/

/-- What holds of a scheduler after some calls. -/
structure KeepsOrder (s : Scheduler) (calls : List Call) : Prop extends (s.after calls).Orderly where
  /-- The threads that left the queue and those that are in it are the ones that entered it, in the
  same order. -/
  order : s.departures calls ++ (s.after calls).ready = s.entries calls
  /-- The thread that is chosen is the first one. -/
  first : ∀ t rest, (s.after calls).ready = t :: rest →
    (s.after calls).next = .ok (t, { s.after calls with ready := rest, running := some t })
  /-- A thread that is ready or running cannot be made ready again. -/
  again : ∀ t, t ∈ (s.after calls).ready ∨ (s.after calls).running = some t →
    (s.after calls).makeReady t = s.after calls
  /-- There is a deadlock if no thread is ready and some are blocked. -/
  deadlock : (s.after calls).next = .error .deadlock ↔
    (s.after calls).ready = [] ∧ (s.after calls).blocked ≠ []
  /-- There are no threads if none is ready or blocked. -/
  noThreads : (s.after calls).next = .error .noThreads ↔
    (s.after calls).ready = [] ∧ (s.after calls).blocked = []
  /-- There is nothing else that can go wrong, and then nothing changes. -/
  failed : ∀ e, (s.after calls).next = .error e →
    (e = .deadlock ∨ e = .noThreads) ∧ s.after (calls ++ [.next]) = s.after calls
  /-- If a thread is only chosen while none runs, those that were made ready and not killed are listed
  once. -/
  listed : s.ChoosesIdle calls → ∀ t, (s.after calls).places t = 1 ↔ s.Alive calls t

/-- What the scheduler answers to the question for the next thread. -/
theorem next_eq (s : Scheduler) :
    (s.ready = [] ∧ s.blocked = [] ∧ s.next = .error .noThreads) ∨
    (s.ready = [] ∧ s.blocked ≠ [] ∧ s.next = .error .deadlock) ∨
    ∃ t rest, s.ready = t :: rest ∧
      s.next = .ok (t, { s with ready := rest, running := some t }) := by
  cases hready : s.ready with
  | nil =>
    cases hblocked : s.blocked with
    | nil => simp [next, hready, hblocked]
    | cons => simp [next, hready, hblocked]
  | cons t rest => exact .inr (.inr ⟨t, rest, rfl, by rw [next, hready]⟩)

theorem next_eq_deadlock_iff {s : Scheduler} :
    s.next = .error .deadlock ↔ s.ready = [] ∧ s.blocked ≠ [] := by
  obtain ⟨hready, hblocked, hnext⟩ | ⟨hready, hblocked, hnext⟩ | ⟨t, rest, hready, hnext⟩ := s.next_eq
  · simp [hready, hblocked, hnext]
  · simp [hready, hblocked, hnext]
  · simp [hready, hnext]

theorem next_eq_noThreads_iff {s : Scheduler} :
    s.next = .error .noThreads ↔ s.ready = [] ∧ s.blocked = [] := by
  obtain ⟨hready, hblocked, hnext⟩ | ⟨hready, hblocked, hnext⟩ | ⟨t, rest, hready, hnext⟩ := s.next_eq
  · simp [hready, hblocked, hnext]
  · simp [hready, hblocked, hnext]
  · simp [hready, hnext]

/-- No thread is chosen if there is a deadlock or if there are no threads, and only then. -/
theorem of_next_eq_error {s : Scheduler} {e : Fault} (h : s.next = .error e) :
    (e = .deadlock ∨ e = .noThreads) ∧ s.choose = s := by
  refine ⟨?_, by rw [choose, h]⟩
  obtain ⟨-, -, hnext⟩ | ⟨-, -, hnext⟩ | ⟨t, rest, -, hnext⟩ := s.next_eq
  · exact .inr (Except.error.inj (h.symm.trans hnext))
  · exact .inl (Except.error.inj (h.symm.trans hnext))
  · cases h.symm.trans hnext

theorem keepsOrder_after (maxQuantum : Nat) (seed : UInt64) (calls : List Call) :
    (create maxQuantum seed).KeepsOrder calls := by
  have hs := orderly_create maxQuantum seed
  refine ⟨hs.after calls, (ready_append_entries hs calls).symm, fun t rest hready => ?_,
    fun t ht => if_pos ht.symm, next_eq_deadlock_iff, next_eq_noThreads_iff, fun e he => ?_,
    fun hidle t => places_after_eq_one_iff hs (fun _ => rfl) hidle⟩
  · rw [next, hready]
  · rw [after_concat]
    exact of_next_eq_error he

/-- A thread that is chosen while another one runs takes its place, and the other one is lost. -/
example : ((create 15 7).after [.makeReady 1, .makeReady 2, .next, .next]).places 1 = 0 := by decide

/-! ## Runs -/

/-- A state that a scheduler comes to by calls that only choose a thread while none runs. -/
def Leads (s s' : Scheduler) : Prop := ∃ calls, s.ChoosesIdle calls ∧ s.after calls = s'

section Leads

variable {s s' : Scheduler}

theorem Leads.refl (s : Scheduler) : s.Leads s := ⟨[], fun before later h => by simp at h, rfl⟩

theorem Leads.perform (leads : s.Leads s') (c : Call) (hidle : c = .next → s'.running = none) :
    s.Leads (s'.perform c) := by
  obtain ⟨calls, hcalls, rfl⟩ := leads
  exact ⟨calls ++ [c], choosesIdle_concat.2 ⟨hcalls, hidle⟩, after_concat ..⟩

theorem Leads.makeAllReady (leads : s.Leads s') (ts : List ThreadId) :
    s.Leads (s'.makeAllReady ts) := by
  induction ts generalizing s' with
  | nil => exact leads
  | cons t rest ih => exact ih (leads.perform (.makeReady t) nofun)

end Leads

end Scheduler

namespace Run

/-- The scheduler of a run that is not over was used in this way, and when no thread runs, it knows. -/
def Leads (s : Scheduler) (run : Run) : Prop :=
  match run with
  | running _ s' _ => s.Leads s'
  | idle _ s' => s.Leads s' ∧ s'.running = none
  | ended _ _ => True

variable {program : Program} {m : Machine} {s s' : Scheduler}

theorem leads_renew (leads : s.Leads s') : Leads s (renew m s') := leads.perform .draw nofun

theorem leads_dispatch (leads : s.Leads s') (hidle : s'.running = none) : Leads s (dispatch m s') := by
  unfold dispatch
  split
  next => trivial
  next t s₁ hnext =>
    have hchoose : s'.choose = s₁ := by rw [Scheduler.choose, hnext]
    have leads₁ := leads.perform .next fun _ => hidle
    dsimp only
    split
    next => trivial
    next => exact leads_renew (hchoose ▸ leads₁)

theorem leads_proceed (leads : s.Leads s') (left : Nat) (p : Progress) :
    Leads s (proceed m s' left p) := by
  have hsuspend : s'.suspend.running = none := by
    obtain ⟨hnone, heq⟩ | ⟨t, -, heq⟩ := s'.suspend_cases
    · exact heq.symm ▸ hnone
    · rw [heq]
  have hblock : s'.block.running = none := by
    obtain ⟨hnone, heq⟩ | ⟨t, -, heq⟩ := s'.block_cases
    · exact heq.symm ▸ hnone
    · rw [heq]
  cases p with
  | advanced =>
    simp only [proceed]
    split
    next =>
      by_cases hready : s'.hasReady = true
      · rw [if_pos hready]
        exact ⟨leads.perform .suspend Scheduler.Call.noConfusion, hsuspend⟩
      · rw [if_neg hready]
        exact leads_renew leads
    next => exact leads
  | blocked => exact ⟨leads.perform .block Scheduler.Call.noConfusion, hblock⟩
  | exited => exact ⟨leads.perform .kill Scheduler.Call.noConfusion, rfl⟩
  | finished => trivial
  | spinning => exact leads

theorem Leads.next {run : Run} (leads : run.Leads s) : Leads s (run.next program) := by
  cases run with
  | running m s' left =>
    rw [Run.next, tick]
    split
    next => trivial
    next p k _ => exact leads_proceed (leads.makeAllReady k.runnable) left p
  | idle m s' => exact leads_dispatch leads.1 leads.2
  | ended => trivial

theorem leads_begin (s : Scheduler) (hidle : s.running = none) (m : Machine) : (begin m s).Leads s := by
  have hsame : (s.makeReady m.current).running = none := (s.running_makeReady _).trans hidle
  exact ⟨(Scheduler.Leads.refl s).perform (.makeReady m.current) nofun, hsame⟩

theorem leads_after (s : Scheduler) (hidle : s.running = none) (m : Machine) (program : Program) (n : Nat) :
    ((begin m s).after program n).Leads s := by
  induction n with
  | zero => exact leads_begin s hidle m
  | succ n ih => exact ih.next

/-- The scheduler keeps the threads in order, whatever calls are made, and a run only chooses a thread
while none runs. -/
theorem schedules_in_order (maxQuantum : Nat) (seed : UInt64) :
    (∀ calls, (Scheduler.create maxQuantum seed).KeepsOrder calls) ∧
    ∀ program m n s, ((begin m (.create maxQuantum seed)).after program n).scheduler? = some s →
      (Scheduler.create maxQuantum seed).Leads s := by
  refine ⟨Scheduler.keepsOrder_after maxQuantum seed, fun program m n s hs => ?_⟩
  have leads := leads_after (.create maxQuantum seed) rfl m program n
  generalize (begin m (.create maxQuantum seed)).after program n = run at hs leads
  cases run with
  | running => exact Option.some.inj hs ▸ leads
  | idle => exact Option.some.inj hs ▸ leads.1
  | ended => cases hs

end Run

end ChannelMachine
