import Cdesktop.Schedule
import Mathlib.Tactic.Linarith

namespace Cdesktop.RoutineSchedule
set_option autoImplicit true

/-- The wall clock shows what the schedule asks for, at the very start of its minute. -/
def Scheduled (z : Local) (kind : ScheduleKind) (time : Option String) (dow : Option Int)
    (t : Instant) : Prop :=
  match kind with
  | .manual => False
  | .hourly => ∃ mm, time.bind parseU32 = some mm ∧ z.naive t % hour = mm * minute
  | .daily => ∃ h m, time.bind parseHhmm = some (h, m) ∧ z.naive t % day = h * hour + m * minute
  | .weekdays =>
    (∃ h m, time.bind parseHhmm = some (h, m) ∧ z.naive t % day = h * hour + m * minute) ∧
      isWeekend (z.weekday t) = false
  | .weekly =>
    (∃ h m, time.bind parseHhmm = some (h, m) ∧ z.naive t % day = h * hour + m * minute) ∧
      dow = some (z.weekday t)

structure Next (z : Local) (kind : ScheduleKind) (time : Option String) (dow : Option Int)
    (from_ t : Instant) : Prop where
  after : from_ < t
  scheduled : Scheduled z kind time dow t
  first : ∀ x, from_ < x → x < t → ¬ Scheduled z kind time dow x

/-- Where the search begins: the scheduled minute of the hour, or the scheduled time of the date,
that the wall clock shows at `from_`. -/
def searchStart (z : Local) (kind : ScheduleKind) (time : Option String) (from_ : Instant) :
    Option Instant :=
  match kind with
  | .manual => none
  | .hourly => do
    let mm ← parseU32 (← time)
    if mm > 59 then none
    else ((z.withMinute mm from_).bind z.withSecond0).bind z.withNanosecond0
  | .daily | .weekdays | .weekly => do
    let (h, m) ← parseHhmm (← time)
    z.localAt from_ h m

def stride : ScheduleKind → Int
  | .hourly => hour
  | _ => day

def rightDay (z : Local) (kind : ScheduleKind) (dow : Option Int) (t : Instant) : Prop :=
  match kind with
  | .weekdays => isWeekend (z.weekday t) = false
  | .weekly => dow = some (z.weekday t)
  | _ => True

/-- The search ends at step `i`: the day is right, and the start, or any step of a weekly schedule,
is after `from_`. -/
def Ends (z : Local) (kind : ScheduleKind) (dow : Option Int) (from_ start : Instant) (i : Nat) :
    Prop :=
  rightDay z kind dow (start + i * stride kind) ∧
    (i = 0 ∨ kind = .weekly → from_ < start + i * stride kind)

def Least (P : Nat → Prop) (n : Nat) : Prop := P n ∧ ∀ i < n, ¬ P i

variable {P : Nat → Prop} {n : Nat} {wall : Int}

theorem Least.unique (h : Least P n) (h' : Least P n') : n = n' := by
  apply Nat.le_antisymm
  · by_contra hlt
    exact h.2 n' (Nat.lt_of_not_le hlt) h'.1
  · by_contra hlt
    exact h'.2 n (Nat.lt_of_not_le hlt) h.1

theorem Least.zero (h : P 0) : Least P 0 :=
  ⟨h, fun i hi => absurd hi (Nat.not_lt_zero i)⟩

theorem Least.succ (hzero : ¬ P 0) (h : Least (fun i => P (i + 1)) n) :
    Least P (n + 1) := by
  apply And.intro h.1
  intro i hi
  cases i with
  | zero => exact hzero
  | succ i => exact h.2 i (Nat.lt_of_succ_lt_succ hi)

def Local.Bounded (z : Local) : Prop := ∀ t, -day < z.offset t ∧ z.offset t < day

theorem isWeekend_iff (weekday : Int) : isWeekend weekday = true ↔ weekday = 6 ∨ weekday = 0 := by
  rw [isWeekend, decide_eq_true_eq]

theorem day_pos : 0 < day := by decide

theorem weekend_ends {z : Local} (hz : z.Bounded) (start : Instant) :
    ∃ k ≤ 4, isWeekend (z.weekday (start + (k : Nat) * day)) = false := by
  have hshown : ∀ k : Nat, ∃ e : Int, -1 ≤ e ∧ e ≤ 1 ∧
      z.naive (start + k * day) / day = start / day + k + e := by
    intro k
    obtain ⟨hlow, hhigh⟩ := hz (start + k * day)
    apply Exists.intro (z.naive (start + k * day) / day - start / day - k)
    have hnaive : z.naive (start + k * day) = (start + z.offset (start + k * day)) + k * day := by
      rw [Local.naive]
      ring
    rw [hnaive, Int.add_mul_ediv_right _ _ day_pos.ne']
    simp only [day, hour, minute, second] at hlow hhigh ⊢
    omega
  by_contra hall
  push Not at hall
  have hweekend : ∀ k : Nat, k ≤ 4 → z.weekday (start + k * day) = 6 ∨ z.weekday (start + k * day) = 0 := by
    intro k hk
    rw [← isWeekend_iff]
    simpa using hall k hk
  obtain ⟨e, he, he', hshow⟩ := hshown 0
  obtain ⟨e₃, he₃, he₃', hshow₃⟩ := hshown 3
  obtain ⟨e₄, he₄, he₄', hshow₄⟩ := hshown 4
  have h₀ := hweekend 0 (by decide)
  have h₃ := hweekend 3 (by decide)
  have h₄ := hweekend 4 (by decide)
  rw [Local.weekday, hshow] at h₀
  rw [Local.weekday, hshow₃] at h₃
  rw [Local.weekday, hshow₄] at h₄
  omega

theorem stride_succ (start p : Int) (k : Nat) : start + p + k * p = start + (k + 1 : Nat) * p := by
  push_cast
  ring

theorem stride_zero (start p : Int) : start + (0 : Nat) * p = start := by
  rw [Nat.cast_zero, Int.zero_mul, Int.add_zero]

theorem skipWeekend_least {z : Local} {start : Instant}
    (h : ∃ k ≤ n, isWeekend (z.weekday (start + (k : Nat) * day)) = false) :
    ∃ k : Nat, skipWeekend z n start = start + k * day ∧
      Least (fun i => isWeekend (z.weekday (start + i * day)) = false) k := by
  induction n generalizing start with
  | zero =>
    obtain ⟨k, hk, hfree⟩ := h
    obtain rfl := Nat.le_zero.mp hk
    exact ⟨0, (stride_zero start day).symm, Least.zero hfree⟩
  | succ n ih =>
    rw [skipWeekend]
    split
    · rename_i hweekend
      have hzero : ¬ isWeekend (z.weekday (start + (0 : Nat) * day)) = false := by
        rw [stride_zero, hweekend]
        decide
      have hnext : ∃ k ≤ n, isWeekend (z.weekday (start + day + (k : Nat) * day)) = false := by
        obtain ⟨k, hk, hfree⟩ := h
        cases k with
        | zero => exact absurd hfree hzero
        | succ k => exact ⟨k, Nat.le_of_succ_le_succ hk, by rw [stride_succ]; exact hfree⟩
      obtain ⟨k, heq, hleast⟩ := ih hnext
      simp only [stride_succ] at heq hleast
      exact ⟨k + 1, heq, hleast.succ hzero⟩
    · rename_i hfree
      rw [Bool.not_eq_true] at hfree
      refine ⟨0, (stride_zero start day).symm, Least.zero ?_⟩
      rw [stride_zero]
      exact hfree

theorem nextWeekday_least {z : Local} {target : Int} {from_ : Instant} {start t : Instant} :
    nextWeekday z target from_ n start = some t ↔ ∃ k < n, t = start + (k : Nat) * day ∧
      Least (fun i => z.weekday (start + i * day) = target ∧ from_ < start + i * day) k := by
  induction n generalizing start with
  | zero =>
    apply iff_of_false
    · exact fun h => nomatch h
    · rintro ⟨k, hk, -⟩
      exact Nat.not_lt_zero k hk
  | succ n ih =>
    rw [nextWeekday]
    split
    · rename_i hends
      have hleast : Least (fun i => z.weekday (start + i * day) = target ∧ from_ < start + i * day) 0 := by
        apply Least.zero
        rw [stride_zero]
        exact hends
      constructor
      · intro h
        cases h
        exact ⟨0, Nat.succ_pos n, (stride_zero _ _).symm, hleast⟩
      · rintro ⟨k, -, rfl, hk⟩
        rw [hk.unique hleast, stride_zero]
    · rename_i hgoes
      have hzero : ¬ (z.weekday (start + (0 : Nat) * day) = target ∧ from_ < start + (0 : Nat) * day) := by
        rw [stride_zero]
        exact hgoes
      rw [ih]
      constructor
      · rintro ⟨k, hk, rfl, hleast⟩
        simp only [stride_succ] at hleast
        exact ⟨k + 1, Nat.succ_lt_succ hk, stride_succ start day k,
          Least.succ (P := fun i => z.weekday (start + i * day) = target ∧ from_ < start + i * day)
            hzero hleast⟩
      · rintro ⟨k, hk, rfl, hleast⟩
        cases k with
        | zero => exact absurd hleast.1 hzero
        | succ k =>
          refine ⟨k, Nat.lt_of_succ_lt_succ hk, (stride_succ start day k).symm, ?_⟩
          simp only [stride_succ]
          exact ⟨hleast.1, fun i hi => hleast.2 (i + 1) (Nat.succ_lt_succ hi)⟩

variable {z : Local} {kind : ScheduleKind} {time : Option String} {dow : Option Int}
  {from_ start t : Instant}

def Found (z : Local) (kind : ScheduleKind) (dow : Option Int) (from_ start t : Instant) : Prop :=
  ∃ n : Nat, t = start + n * stride kind ∧ Least (Ends z kind dow from_ start) n ∧
    (kind = .weekly → n < 8)

theorem found_once (hright : ∀ x, rightDay z kind dow x) (hkind : kind ≠ .weekly) :
    Found z kind dow from_ start t ↔
      (if start ≤ from_ then start + stride kind else start) = t := by
  have hone : Ends z kind dow from_ start 1 := by
    refine ⟨hright _, ?_⟩
    rintro (h | h)
    · cases h
    · exact absurd h hkind
  have hzero : Ends z kind dow from_ start 0 ↔ from_ < start := by
    rw [Ends, stride_zero]
    exact ⟨fun h => h.2 (.inl rfl), fun h => ⟨hright _, fun _ => h⟩⟩
  split
  · rename_i hle
    have hleast : Least (Ends z kind dow from_ start) 1 := by
      apply And.intro hone
      intro i hi
      obtain rfl := Nat.lt_one_iff.1 hi
      rw [hzero]
      exact Int.not_lt.2 hle
    constructor
    · rintro ⟨n, rfl, hn, -⟩
      rw [hn.unique hleast, Nat.cast_one, Int.one_mul]
    · rintro rfl
      exact ⟨1, by rw [Nat.cast_one, Int.one_mul], hleast, fun h => absurd h hkind⟩
  · rename_i hlt
    have hleast : Least (Ends z kind dow from_ start) 0 := Least.zero (hzero.2 (Int.lt_of_not_ge hlt))
    constructor
    · rintro ⟨n, rfl, hn, -⟩
      rw [hn.unique hleast, stride_zero]
    · rintro rfl
      exact ⟨0, (stride_zero _ _).symm, hleast, fun h => absurd h hkind⟩

theorem found_weekdays (hz : z.Bounded) :
    Found z .weekdays dow from_ start t ↔
      skipWeekend z 7 (if start ≤ from_ then start + day else start) = t := by
  have hends : ∀ begin : Instant, ∃ k ≤ 7, isWeekend (z.weekday (begin + (k : Nat) * day)) = false := by
    intro begin
    obtain ⟨k, hk, hfree⟩ := weekend_ends hz begin
    exact ⟨k, hk.trans (by decide), hfree⟩
  have hnever : ∀ {P : Prop}, (ScheduleKind.weekdays = .weekly → P) := fun h => nomatch h
  split
  · rename_i hle
    obtain ⟨k, heq, hk⟩ := skipWeekend_least (hends (start + day))
    have hzero : ¬ Ends z .weekdays dow from_ start 0 := by
      rintro ⟨-, hafter⟩
      have h := hafter (.inl rfl)
      rw [stride_zero] at h
      exact Int.not_lt.2 hle h
    have hsucc : ∀ i : Nat, Ends z .weekdays dow from_ start (i + 1) ↔
        isWeekend (z.weekday (start + day + i * day)) = false := by
      intro i
      rw [stride_succ]
      constructor
      · exact fun h => h.1
      · intro h
        refine ⟨h, ?_⟩
        rintro (h | h) <;> cases h
    have hleast : Least (Ends z .weekdays dow from_ start) (k + 1) := by
      apply Least.succ hzero
      exact ⟨(hsucc k).2 hk.1, fun i hi h => hk.2 i hi ((hsucc i).1 h)⟩
    rw [heq]
    constructor
    · rintro ⟨n, rfl, hn, -⟩
      rw [hn.unique hleast]
      exact stride_succ start day k
    · rintro rfl
      exact ⟨k + 1, stride_succ start day k, hleast, hnever⟩
  · rename_i hlt
    obtain ⟨k, heq, hk⟩ := skipWeekend_least (hends start)
    have hiff : ∀ i : Nat, Ends z .weekdays dow from_ start i ↔
        isWeekend (z.weekday (start + i * day)) = false := by
      intro i
      constructor
      · exact fun h => h.1
      · intro h
        refine ⟨h, ?_⟩
        rintro (rfl | h)
        · rw [stride_zero]
          exact Int.lt_of_not_ge hlt
        · cases h
    have hleast : Least (Ends z .weekdays dow from_ start) k :=
      ⟨(hiff k).2 hk.1, fun i hi h => hk.2 i hi ((hiff i).1 h)⟩
    rw [heq]
    constructor
    · rintro ⟨n, rfl, hn, -⟩
      rw [hn.unique hleast]
      rfl
    · rintro rfl
      exact ⟨k, rfl, hleast, hnever⟩

theorem found_weekly {target : Int} :
    Found z .weekly (some target) from_ start t ↔ nextWeekday z target from_ 8 start = some t := by
  have hends : Ends z .weekly (some target) from_ start =
      fun i : Nat => z.weekday (start + i * day) = target ∧ from_ < start + i * day := by
    funext i
    apply propext
    constructor
    · exact fun h => ⟨(Option.some.inj h.1).symm, h.2 (.inr rfl)⟩
    · exact fun h => ⟨congrArg some h.1.symm, fun _ => h.2⟩
  rw [nextWeekday_least, Found, hends]
  constructor
  · rintro ⟨n, ht, hleast, hn⟩
    exact ⟨n, hn rfl, ht, hleast⟩
  · rintro ⟨n, hn, ht, hleast⟩
    exact ⟨n, ht, hleast, fun _ => hn⟩

theorem weekday_range (z : Local) (t : Instant) : 0 ≤ z.weekday t ∧ z.weekday t ≤ 6 := by
  rw [Local.weekday]
  omega

theorem hourly_search (z : Local) (time : Option String) (dow : Option Int) (from_ : Instant) :
    computeNextRunAt z .hourly time dow true from_ =
      (searchStart z .hourly time from_).map fun start =>
        if start ≤ from_ then start + hour else start := by
  cases time with
  | none => rfl
  | some time =>
    simp only [computeNextRunAt, searchStart, Bool.not_true, Bool.false_eq_true, ↓reduceIte]
    cases hparse : parseU32 time with
    | none => simp [hparse]
    | some mm =>
      by_cases hmm : mm > 59
      · simp [hparse, hmm]
      · cases hstart : ((z.withMinute mm from_).bind z.withSecond0).bind z.withNanosecond0 <;>
          simp [hparse, hmm, hstart]

theorem timed_search (z : Local) (time : Option String) (from_ : Instant)
    (f : Instant → Option Instant) :
    (do
      let (h, m) ← parseHhmm (← time)
      let start ← z.localAt from_ h m
      f start) = (searchStart z .daily time from_).bind f := by
  cases time with
  | none => rfl
  | some time =>
    simp only [searchStart]
    cases hparse : parseHhmm time <;> simp [hparse]

theorem daily_search (z : Local) (time : Option String) (dow : Option Int) (from_ : Instant) :
    computeNextRunAt z .daily time dow true from_ =
      (searchStart z .daily time from_).map fun start =>
        if start ≤ from_ then start + day else start := by
  rw [Option.map_eq_bind]
  exact timed_search z time from_ _

theorem weekdays_search (z : Local) (time : Option String) (dow : Option Int) (from_ : Instant) :
    computeNextRunAt z .weekdays time dow true from_ =
      (searchStart z .weekdays time from_).map fun start =>
        skipWeekend z 7 (if start ≤ from_ then start + day else start) := by
  rw [Option.map_eq_bind]
  exact timed_search z time from_ _

theorem weekly_search (z : Local) (time : Option String) (dow : Option Int) (from_ : Instant) :
    computeNextRunAt z .weekly time dow true from_ =
      (dow.filter fun d => decide (0 ≤ d ∧ d ≤ 6)).bind fun target =>
        (searchStart z .weekly time from_).bind (nextWeekday z target from_ 8) := by
  simp only [computeNextRunAt, Bool.not_true, Bool.false_eq_true, ↓reduceIte]
  cases dow.filter fun d => decide (0 ≤ d ∧ d ≤ 6) with
  | none => cases time.bind parseHhmm <;> simp
  | some target => exact timed_search z time from_ _

theorem computeNextRunAt_found (hz : z.Bounded) :
    computeNextRunAt z kind time dow true from_ = some t ↔
      ∃ start, searchStart z kind time from_ = some start ∧ Found z kind dow from_ start t := by
  cases kind with
  | manual =>
    apply iff_of_false
    · exact fun h => nomatch h
    · rintro ⟨start, hstart, -⟩
      cases hstart
  | hourly =>
    rw [hourly_search, Option.map_eq_some_iff]
    have honce (start : Instant) := @found_once z .hourly dow from_ start t (fun _ => trivial)
      (fun h => nomatch h)
    simp only [honce]
    rfl
  | daily =>
    rw [daily_search, Option.map_eq_some_iff]
    have honce (start : Instant) := @found_once z .daily dow from_ start t (fun _ => trivial)
      (fun h => nomatch h)
    simp only [honce]
    rfl
  | weekdays =>
    rw [weekdays_search, Option.map_eq_some_iff]
    simp only [found_weekdays hz]
  | weekly =>
    rw [weekly_search, Option.bind_eq_some_iff]
    simp only [Option.bind_eq_some_iff, Option.filter_eq_some_iff]
    constructor
    · rintro ⟨target, ⟨rfl, -⟩, start, hstart, hnext⟩
      exact ⟨start, hstart, found_weekly.2 hnext⟩
    · rintro ⟨start, hstart, hfound⟩
      have hends := hfound
      obtain ⟨n, -, hleast, -⟩ := hends
      have hdow : dow = some (z.weekday (start + n * stride .weekly)) := hleast.1.1
      have hrange := weekday_range z (start + n * stride .weekly)
      rw [hdow] at hfound
      exact ⟨_, ⟨hdow, decide_eq_true hrange⟩, start, hstart, found_weekly.1 hfound⟩

/-- The next scheduled instant is the first step from the start of the search that is on a right
day: so many hours, or days of twenty-four hours, after the scheduled time of the hour or the date of
`from_`. -/
def OnGrid (z : Local) (kind : ScheduleKind) (time : Option String) (dow : Option Int)
    (from_ : Instant) : Prop :=
  ∃ next, Next z kind time dow from_ next ∧
    ∃ start, searchStart z kind time from_ = some start ∧
      ∃ n : Nat, next = start + n * stride kind ∧ (∀ i < n, ¬ Ends z kind dow from_ start i) ∧
        (kind = .weekly → n < 8)

theorem Scheduled.rightDay (h : Scheduled z kind time dow t) : rightDay z kind dow t := by
  cases kind with
  | manual => cases h
  | hourly => trivial
  | daily => trivial
  | weekdays => exact h.2
  | weekly => exact h.2

def ComputesNext (z : Local) (kind : ScheduleKind) (time : Option String) (dow : Option Int)
    (from_ : Instant) : Prop :=
  ∃ t, computeNextRunAt z kind time dow true from_ = some t ∧ Next z kind time dow from_ t

theorem computesNext_iff (hz : z.Bounded) :
    ComputesNext z kind time dow from_ ↔ OnGrid z kind time dow from_ := by
  constructor
  · rintro ⟨t, hcompute, hnext⟩
    obtain ⟨start, hstart, n, rfl, hleast, hn⟩ := (computeNextRunAt_found hz).1 hcompute
    exact ⟨_, hnext, start, hstart, n, rfl, hleast.2, hn⟩
  · rintro ⟨next, hnext, start, hstart, n, rfl, hbefore, hn⟩
    refine ⟨_, (computeNextRunAt_found hz).2 ⟨start, hstart, n, rfl, ⟨?_, hbefore⟩, hn⟩, hnext⟩
    exact ⟨hnext.scheduled.rightDay, fun _ => hnext.after⟩

structure Local.Lawful (z : Local) : Prop where
  none : ∀ wall, z.fromLocalDatetime wall = .none → ∀ t, z.naive t ≠ wall
  single : ∀ wall at_, z.fromLocalDatetime wall = .single at_ → ∀ t, z.naive t = wall ↔ t = at_
  ambiguous : ∀ wall earliest latest, z.fromLocalDatetime wall = .ambiguous earliest latest →
    earliest < latest ∧ z.naive earliest = wall ∧ z.naive latest = wall ∧
      ∀ t, z.naive t = wall → earliest ≤ t

def Local.Unchanged (z : Local) (start next : Instant) : Prop :=
  ∀ t, start ≤ t → t ≤ next → z.offset t = z.offset start

theorem weekday_step {i : Nat} (hsame : z.offset (start + i * day) = z.offset start) :
    z.weekday (start + i * day) = (z.naive start / day + i + 4) % 7 := by
  rw [Local.weekday, Local.naive, hsame, Int.add_right_comm, ← Local.naive,
    Int.add_mul_ediv_right _ _ day_pos.ne']

theorem stride_pos (kind : ScheduleKind) : 0 < stride kind := by
  cases kind <;> decide

theorem stride_le_day (kind : ScheduleKind) : stride kind ≤ day := by
  cases kind <;> decide

theorem steps_within (kind : ScheduleKind) {n : Nat} (hn : n ≤ 7) :
    0 ≤ (n : Int) * stride kind ∧ (n : Int) * stride kind ≤ 7 * day := by
  have hpos := stride_pos kind
  constructor
  · exact Int.mul_nonneg (Int.natCast_nonneg n) hpos.le
  · calc (n : Int) * stride kind ≤ 7 * stride kind :=
          Int.mul_le_mul_of_nonneg_right (by exact_mod_cast hn) hpos.le
      _ ≤ 7 * day := by linarith [stride_le_day kind]

theorem step_after (hlow : from_ < start + stride kind) (hn : 1 ≤ n) :
    from_ < start + n * stride kind := by
  have h : 1 * stride kind ≤ (n : Int) * stride kind :=
    Int.mul_le_mul_of_nonneg_right (by exact_mod_cast hn) (stride_pos kind).le
  linarith

theorem Least.exists (h : ∃ n ≤ m, P n) : ∃ n ≤ m, Least P n := by
  classical
  obtain ⟨n, hn, hP⟩ := h
  have hex : ∃ n, P n := ⟨n, hP⟩
  exact ⟨Nat.find hex, (Nat.find_min' hex hP).trans hn, Nat.find_spec hex, fun i hi => Nat.find_min hex hi⟩

theorem earliest_shows (hlawful : z.Lawful) (h : (z.fromLocalDatetime wall).earliest = some start) :
    z.naive start = wall := by
  cases hresult : z.fromLocalDatetime wall with
  | none =>
    rw [hresult] at h
    cases h
  | single at_ =>
    rw [hresult] at h
    cases h
    exact (hlawful.single wall start hresult start).2 rfl
  | ambiguous earliest latest =>
    rw [hresult] at h
    cases h
    exact (hlawful.ambiguous wall start latest hresult).2.1

theorem earliest_of_asSingle {result : LocalResult} (h : result.asSingle = some t) :
    result.earliest = some t := by
  cases result with
  | single => exact h
  | _ => cases h

theorem mapLocal_shows (hlawful : z.Lawful) {f : Int → Int} (h : z.mapLocal f t = some start) :
    z.naive start = f (z.naive t) :=
  earliest_shows hlawful (earliest_of_asSingle h)

theorem localAt_shows (hlawful : z.Lawful) {h m : Nat} (hstart : z.localAt from_ h m = some start) :
    z.naive start = z.naive from_ - z.naive from_ % day + h * hour + m * minute := by
  apply earliest_shows hlawful
  rw [Local.localAt, Option.or_eq_some_iff] at hstart
  exact hstart.elim earliest_of_asSingle And.right

theorem parseHhmm_range {s : String} {h m : Nat} (hparse : parseHhmm s = some (h, m)) :
    h ≤ 23 ∧ m ≤ 59 := by
  simp only [parseHhmm, Option.bind_eq_bind, Option.bind_eq_some_iff] at hparse
  obtain ⟨_, _, h', _, m', _, hrange⟩ := hparse
  split at hrange
  · cases hrange
  · cases hrange
    omega

theorem searchStart_shows (hlawful : z.Lawful)
    (hstart : searchStart z kind time from_ = some start) :
    (z.naive from_ - stride kind < z.naive start ∧ z.naive start < z.naive from_ + stride kind) ∧
      ∀ t, Scheduled z kind time dow t ↔
        z.naive t % stride kind = z.naive start % stride kind ∧ rightDay z kind dow t := by
  cases kind with
  | manual => cases hstart
  | hourly =>
    simp only [searchStart, Option.bind_eq_bind, Option.bind_eq_some_iff] at hstart
    obtain ⟨s, rfl, mm, hparse, hstart⟩ := hstart
    split at hstart
    · cases hstart
    · simp only [Option.bind_eq_some_iff] at hstart
      obtain ⟨t₂, ⟨t₁, h₁, h₂⟩, h₃⟩ := hstart
      have hshown : (z.naive from_ - hour < z.naive start ∧ z.naive start < z.naive from_ + hour) ∧
          z.naive start % hour = mm * minute := by
        rw [mapLocal_shows hlawful h₃, mapLocal_shows hlawful h₂, mapLocal_shows hlawful h₁]
        simp only [hour, minute, second]
        omega
      exact ⟨hshown.1, by simp [Scheduled, hparse, stride, hshown.2, rightDay]⟩
  | daily | weekdays | weekly =>
    simp only [searchStart, Option.bind_eq_bind, Option.bind_eq_some_iff, Prod.exists] at hstart
    obtain ⟨s, rfl, h, m, hparse, hstart⟩ := hstart
    obtain ⟨hh, hm⟩ := parseHhmm_range hparse
    have hshown : (z.naive from_ - day < z.naive start ∧ z.naive start < z.naive from_ + day) ∧
        z.naive start % day = h * hour + m * minute := by
      rw [localAt_shows hlawful hstart]
      simp only [day, hour, minute, second]
      omega
    exact ⟨hshown.1, by simp [Scheduled, hparse, stride, hshown.2, rightDay]⟩

theorem scheduled_iff_step (hlawful : z.Lawful) (hstart : searchStart z kind time from_ = some start)
    (hsame : z.offset t = z.offset start) :
    Scheduled z kind time dow t ↔
      (∃ j : Int, t = start + j * stride kind) ∧ rightDay z kind dow t := by
  rw [(searchStart_shows hlawful hstart).2, Local.naive, Local.naive, hsame,
    Int.emod_eq_emod_iff_emod_sub_eq_zero, Int.add_sub_add_right, ← Int.dvd_iff_emod_eq_zero]
  apply and_congr_left'
  constructor
  · rintro ⟨j, hj⟩
    exact ⟨j, by linarith⟩
  · rintro ⟨j, rfl⟩
    exact ⟨j, by ring⟩

theorem step_lt (start : Instant) (kind : ScheduleKind) {i j : Int}
    (h : start + i * stride kind < start + j * stride kind) : i < j :=
  lt_of_mul_lt_mul_right (lt_of_add_lt_add_left h) (stride_pos kind).le

theorem onGrid_of_unchanged (hlawful : z.Lawful) (hnext : Next z kind time dow from_ next)
    (hstart : searchStart z kind time from_ = some start) (hle : start ≤ next)
    (hsame : z.Unchanged start next) : OnGrid z kind time dow from_ := by
  obtain ⟨⟨j, rfl⟩, hright⟩ :=
    (scheduled_iff_step hlawful hstart (hsame next hle le_rfl)).1 hnext.scheduled
  have hj : -1 < j := step_lt start kind (by linarith [stride_pos kind])
  obtain ⟨n, rfl⟩ := Int.eq_ofNat_of_zero_le (show 0 ≤ j by omega)
  have hlow : from_ < start + stride kind := by
    by_cases hbefore : start ≤ from_
    · have hshows := (@searchStart_shows z kind time dow from_ _ hlawful hstart).1.1
      rw [Local.naive, Local.naive, hsame from_ hbefore hnext.after.le] at hshows
      linarith
    · linarith [stride_pos kind]
  have hoffset : ∀ i : Nat, start + i * stride kind ≤ start + n * stride kind →
      z.offset (start + i * stride kind) = z.offset start := fun i =>
    hsame _ (le_add_of_nonneg_right (Int.mul_nonneg (Int.natCast_nonneg i) (stride_pos kind).le))
  have hbefore : ∀ i < n, ¬ Ends z kind dow from_ start i := by
    rintro i hi ⟨hday, hzero⟩
    have hstep : start + i * stride kind < start + n * stride kind := by
      have h := Int.mul_lt_mul_of_pos_right (Int.ofNat_lt.2 hi) (stride_pos kind)
      linarith
    apply hnext.first _ _ hstep
    · exact (scheduled_iff_step hlawful hstart (hoffset i hstep.le)).2 ⟨⟨i, rfl⟩, hday⟩
    · cases i with
      | zero => exact hzero (.inl rfl)
      | succ i => exact step_after hlow (Nat.succ_pos i)
  refine ⟨_, hnext, start, hstart, n, rfl, hbefore, ?_⟩
  rintro rfl
  by_contra hmany
  -- the day was right a week earlier as well
  apply hbefore (n - 7) (by omega)
  refine ⟨?_, fun _ => step_after hlow (by omega)⟩
  have hcast : ((n - 7 : Nat) : Int) = n - 7 := by omega
  have hday := @weekday_step z start n (hoffset n le_rfl)
  have hday' := @weekday_step z start (n - 7)
    (hoffset (n - 7) (by rw [hcast]; linarith [stride_pos .weekly]))
  refine (show dow = some (z.weekday (start + n * day)) from hright).trans (congrArg some ?_)
  rw [hday, show z.weekday (start + (n - 7 : Nat) * stride .weekly) = _ from hday']
  omega

theorem ends_steady (hlow : from_ < start + stride kind)
    (hsame : ∀ i : Nat, i ≤ 7 → z.offset (start + i * day) = z.offset start)
    (hdow : kind = .weekly → ∃ d, dow = some d ∧ 0 ≤ d ∧ d ≤ 6) :
    ∃ n ≤ 7, Ends z kind dow from_ start n := by
  cases kind with
  | weekdays =>
    have hright : ∃ i : Nat, 1 ≤ i ∧ i ≤ 3 ∧ (z.naive start / day + i + 4) % 7 ≠ 6 ∧
        (z.naive start / day + i + 4) % 7 ≠ 0 := by
      by_contra hno
      push Not at hno
      have h₁ := hno 1 (by decide) (by decide)
      have h₂ := hno 2 (by decide) (by decide)
      have h₃ := hno 3 (by decide) (by decide)
      omega
    obtain ⟨i, hi, hi', hsat, hsun⟩ := hright
    refine ⟨i, by omega, ?_, fun _ => step_after hlow hi⟩
    change isWeekend (z.weekday (start + i * day)) = false
    rw [weekday_step (hsame i (by omega)), Bool.eq_false_iff, ne_eq, isWeekend_iff]
    exact not_or.2 ⟨hsat, hsun⟩
  | weekly =>
    obtain ⟨d, rfl, hd, hd'⟩ := hdow rfl
    have hright : ∃ i : Nat, 1 ≤ i ∧ i ≤ 7 ∧ (z.naive start / day + i + 4) % 7 = d :=
      ⟨((d - z.naive start / day - 5) % 7 + 1).toNat, by omega, by omega, by omega⟩
    obtain ⟨i, hi, hi', hright⟩ := hright
    refine ⟨i, hi', ?_, fun _ => step_after hlow hi⟩
    change some d = some (z.weekday (start + i * day))
    rw [weekday_step (hsame i hi'), hright]
  | manual | hourly | daily => exact ⟨1, by decide, trivial, fun _ => step_after hlow le_rfl⟩

theorem valid_hourly (hvalid : validateSchedule .hourly time dow = .ok ()) :
    ∃ mm, time.bind parseU32 = some mm ∧ mm ≤ 59 := by
  cases time with
  | none => cases hvalid
  | some time =>
    simp only [validateSchedule] at hvalid
    split at hvalid
    · split at hvalid
      · rename_i mm hparse
        split at hvalid
        · cases hvalid
        · exact ⟨mm, hparse, by omega⟩
      · cases hvalid
    · cases hvalid

theorem valid_time (hvalid : validateSchedule kind time dow = .ok ())
    (hkind : kind = .daily ∨ kind = .weekdays ∨ kind = .weekly) :
    ∃ h m, time.bind parseHhmm = some (h, m) := by
  cases hparse : time.bind parseHhmm with
  | some hm => exact ⟨hm.1, hm.2, rfl⟩
  | none =>
    cases time with
    | none => rcases hkind with rfl | rfl | rfl <;> cases hvalid
    | some time =>
      have hnone : parseHhmm time = none := hparse
      rcases hkind with rfl | rfl | rfl <;>
        simp only [validateSchedule, Option.bind_some, Option.getD_some, hnone] at hvalid <;>
        cases hvalid

theorem valid_dow (hvalid : validateSchedule .weekly time dow = .ok ()) :
    ∃ d, dow = some d ∧ 0 ≤ d ∧ d ≤ 6 := by
  simp only [validateSchedule] at hvalid
  split at hvalid
  · cases hvalid
  · split at hvalid
    · rename_i d
      split at hvalid
      · rename_i hrange
        exact ⟨d, rfl, hrange⟩
      · cases hvalid
    · cases hvalid

theorem bind_range {h m : Nat} (hparse : time.bind parseHhmm = some (h, m)) : h ≤ 23 ∧ m ≤ 59 := by
  obtain ⟨s, -, hs⟩ := Option.bind_eq_some_iff.1 hparse
  exact parseHhmm_range hs

theorem searchStart_hourly {mm : Nat} (hparse : time.bind parseU32 = some mm) (hmm : mm ≤ 59) :
    searchStart z .hourly time from_ =
      ((z.withMinute mm from_).bind z.withSecond0).bind z.withNanosecond0 := by
  obtain ⟨s, rfl, hs⟩ := Option.bind_eq_some_iff.1 hparse
  simp only [searchStart, Option.bind_eq_bind, Option.bind_some, hs, if_neg (Nat.not_lt.2 hmm)]

theorem searchStart_time {h m : Nat} (hparse : time.bind parseHhmm = some (h, m))
    (hkind : kind = .daily ∨ kind = .weekdays ∨ kind = .weekly) :
    searchStart z kind time from_ = z.localAt from_ h m := by
  obtain ⟨s, rfl, hs⟩ := Option.bind_eq_some_iff.1 hparse
  rcases hkind with rfl | rfl | rfl <;>
    simp only [searchStart, Option.bind_eq_bind, Option.bind_some, hs]

/-- The offset does not change from some days before to some days after `from_`. -/
def Local.Steady (z : Local) (from_ : Instant) : Prop :=
  ∀ t, from_ - 3 * day ≤ t → t ≤ from_ + 9 * day → z.offset t = z.offset from_

theorem offset_steady (hz : z.Bounded) (hsteady : z.Steady from_)
    (hlow : z.naive from_ - day < z.naive t) (hhigh : z.naive t < z.naive from_ + day) :
    z.offset t = z.offset from_ := by
  rw [Local.naive, Local.naive] at hlow hhigh
  have hbound := hz t
  have hbound' := hz from_
  exact hsteady t (by linarith [hbound.2, hbound'.1]) (by linarith [hbound.1, hbound'.2])

section
variable (hz : z.Bounded) (hlawful : z.Lawful) (hsteady : z.Steady from_)
include hz hlawful hsteady

theorem fromLocalDatetime_steady (hlow : z.naive from_ - day < wall)
    (hhigh : wall < z.naive from_ + day) :
    z.fromLocalDatetime wall = .single (wall - z.offset from_) := by
  have honly : ∀ t, z.naive t = wall ↔ t = wall - z.offset from_ := by
    intro t
    constructor
    · rintro rfl
      rw [← offset_steady hz hsteady hlow hhigh, Local.naive, Int.add_sub_cancel]
    · rintro rfl
      rw [Local.naive] at hlow hhigh
      have hsame := hsteady (wall - z.offset from_) (by linarith) (by linarith)
      rw [Local.naive, hsame, Int.sub_add_cancel]
  cases hresult : z.fromLocalDatetime wall with
  | none => exact absurd ((honly _).2 rfl) (hlawful.none wall hresult _)
  | single at_ => rw [((hlawful.single wall at_ hresult _).1 ((honly _).2 rfl))]
  | ambiguous earliest latest =>
    obtain ⟨hlt, hearliest, hlatest, -⟩ := hlawful.ambiguous wall earliest latest hresult
    rw [(honly _).1 hearliest, (honly _).1 hlatest] at hlt
    exact absurd hlt (lt_irrefl _)

theorem mapLocal_steady {f : Int → Int}
    (hf : z.naive from_ - day < f (z.naive t) ∧ f (z.naive t) < z.naive from_ + day) :
    ∃ s, z.mapLocal f t = some s := by
  rw [Local.mapLocal, fromLocalDatetime_steady hz hlawful hsteady hf.1 hf.2]
  exact ⟨_, rfl⟩

theorem hourly_steady {mm : Nat} (hmm : mm ≤ 59) :
    ∃ start, ((z.withMinute mm from_).bind z.withSecond0).bind z.withNanosecond0 = some start := by
  obtain ⟨t₁, h₁⟩ : ∃ t, z.withMinute mm from_ = some t := by
    apply mapLocal_steady hz hlawful hsteady
    simp only [day, hour, minute, second]
    omega
  obtain ⟨t₂, h₂⟩ : ∃ t, z.withSecond0 t₁ = some t := by
    apply mapLocal_steady hz hlawful hsteady
    rw [mapLocal_shows hlawful h₁]
    simp only [day, hour, minute, second]
    omega
  obtain ⟨t₃, h₃⟩ : ∃ t, z.withNanosecond0 t₂ = some t := by
    apply mapLocal_steady hz hlawful hsteady
    rw [mapLocal_shows hlawful h₂, mapLocal_shows hlawful h₁]
    simp only [day, hour, minute, second]
    omega
  exact ⟨t₃, by rw [h₁, Option.bind_some, h₂, Option.bind_some, h₃]⟩

theorem searchStart_steady (hkind : kind ≠ .manual)
    (hvalid : validateSchedule kind time dow = .ok ()) :
    ∃ start, searchStart z kind time from_ = some start := by
  cases kind with
  | manual => exact absurd rfl hkind
  | hourly =>
    obtain ⟨mm, hparse, hmm⟩ := valid_hourly hvalid
    rw [searchStart_hourly hparse hmm]
    exact hourly_steady hz hlawful hsteady hmm
  | daily | weekdays | weekly =>
    obtain ⟨h, m, hparse⟩ := valid_time hvalid (by simp)
    obtain ⟨hh, hm⟩ := bind_range hparse
    have hwall : z.naive from_ - day < z.naive from_ - z.naive from_ % day + h * hour + m * minute ∧
        z.naive from_ - z.naive from_ % day + h * hour + m * minute < z.naive from_ + day := by
      simp only [day, hour, minute, second]
      omega
    rw [searchStart_time hparse (by simp), Local.localAt,
      fromLocalDatetime_steady hz hlawful hsteady hwall.1 hwall.2]
    exact ⟨_, rfl⟩

theorem onGrid_steady (hkind : kind ≠ .manual)
    (hvalid : validateSchedule kind time dow = .ok ()) : OnGrid z kind time dow from_ := by
  obtain ⟨start, hstart⟩ := searchStart_steady hz hlawful hsteady hkind hvalid
  obtain ⟨⟨hlow, hhigh⟩, -⟩ := @searchStart_shows z kind time dow from_ _ hlawful hstart
  have hle := stride_le_day kind
  have hsame := offset_steady hz hsteady (t := start) (by linarith) (by linarith)
  rw [Local.naive, Local.naive, hsame] at hlow hhigh
  have hoffset : ∀ t, from_ - day ≤ t → t ≤ start + 7 * day → z.offset t = z.offset start :=
    fun t ht ht' => (hsteady t (by linarith) (by linarith)).trans hsame.symm
  have hnext : from_ < start + stride kind := by linarith
  have hends : ∃ n ≤ 7, Ends z kind dow from_ start n := by
    apply ends_steady hnext
    · intro i hi
      obtain ⟨hpos, hweek⟩ := steps_within .daily hi
      rw [show stride .daily = day from rfl] at hpos hweek
      exact hoffset _ (by linarith) (by linarith)
    · rintro rfl
      exact valid_dow hvalid
  obtain ⟨n, hn, hleast⟩ := Least.exists hends
  have hafter : from_ < start + n * stride kind := by
    cases n with
    | zero => exact hleast.1.2 (.inl rfl)
    | succ n => exact step_after hnext (Nat.succ_pos n)
  have hstep (t : Instant) (ht : from_ < t) (ht' : t ≤ start + n * stride kind) :=
    @scheduled_iff_step z kind time dow from_ start t hlawful hstart
      (hoffset t (by linarith) (by linarith [steps_within kind hn]))
  refine ⟨_, ⟨hafter, ?_, ?_⟩, start, hstart, n, rfl, hleast.2, fun _ => Nat.lt_succ_of_le hn⟩
  · exact (hstep _ hafter le_rfl).2 ⟨⟨n, rfl⟩, hleast.1.1⟩
  · intro x hx hx' hscheduled
    obtain ⟨⟨j, rfl⟩, hright⟩ := (hstep x hx hx'.le).1 hscheduled
    have hj : -1 < j := step_lt start kind (by linarith)
    obtain ⟨i, rfl⟩ := Int.eq_ofNat_of_zero_le (show 0 ≤ j by omega)
    exact hleast.2 i (by exact_mod_cast step_lt start kind hx') ⟨hright, fun _ => hx⟩

end

/-- For an accepted schedule the next run is the next scheduled instant exactly where that instant
is on the grid of the search, as it is wherever the offset does not change up to it. -/
theorem computeNextRunAt_next (z : Local) (hz : z.Bounded) (hlawful : z.Lawful) (kind : ScheduleKind)
    (time : Option String) (dow : Option Int) (hkind : kind ≠ .manual)
    (hvalid : validateSchedule kind time dow = .ok ()) (from_ : Instant) :
    (ComputesNext z kind time dow from_ ↔ OnGrid z kind time dow from_) ∧
      (z.Steady from_ → OnGrid z kind time dow from_) ∧
      ∀ start next, searchStart z kind time from_ = some start → Next z kind time dow from_ next →
        start ≤ next → z.Unchanged start next → OnGrid z kind time dow from_ :=
  ⟨computesNext_iff hz, fun hsteady => onGrid_steady hz hlawful hsteady hkind hvalid,
    fun _ _ hstart hnext => onGrid_of_unchanged hlawful hnext hstart⟩

def changing (at_ : Instant) (before after : Int) : Local where
  offset t := if t < at_ then before else after
  fromLocalDatetime wall :=
    if wall - before < at_ then
      if at_ ≤ wall - after then
        if before = after then .single (wall - before) else .ambiguous (wall - before) (wall - after)
      else .single (wall - before)
    else if at_ ≤ wall - after then .single (wall - after) else .none

theorem changing_naive (at_ : Instant) (before after : Int) (t : Instant) (wall : Int) :
    (changing at_ before after).naive t = wall ↔
      (t < at_ ∧ t = wall - before) ∨ (at_ ≤ t ∧ t = wall - after) := by
  simp only [Local.naive, changing]
  split
  · rename_i hlt
    constructor
    · intro h
      exact .inl ⟨hlt, by linarith⟩
    · rintro (⟨-, h⟩ | ⟨h, -⟩)
      · linarith
      · exact absurd hlt (not_lt.2 h)
  · rename_i hge
    constructor
    · intro h
      exact .inr ⟨not_lt.1 hge, by linarith⟩
    · rintro (⟨h, -⟩ | ⟨-, h⟩)
      · exact absurd h hge
      · linarith

theorem changing_lawful (at_ : Instant) (before after : Int) :
    (changing at_ before after).Lawful where
  none wall h t := by
    simp only [changing] at h
    rw [ne_eq, changing_naive]
    rintro (⟨hlt, rfl⟩ | ⟨hge, rfl⟩)
    · rw [if_pos hlt] at h
      repeat' split at h
      all_goals cases h
    · rw [if_pos hge, if_pos hge] at h
      repeat' split at h
      all_goals cases h
  single wall t' h t := by
    simp only [changing] at h
    rw [changing_naive]
    split at h
    · rename_i hlt
      split at h
      · rename_i hge
        split at h
        · rename_i hsame
          rw [hsame] at hlt
          exact absurd hlt (not_lt.2 hge)
        · cases h
      · rename_i hno
        cases h
        constructor
        · rintro (⟨-, ht⟩ | ⟨hge, rfl⟩)
          · exact ht
          · exact absurd hge hno
        · rintro rfl
          exact .inl ⟨hlt, rfl⟩
    · rename_i hno
      split at h
      · rename_i hge
        cases h
        constructor
        · rintro (⟨hlt, rfl⟩ | ⟨-, ht⟩)
          · exact absurd hlt hno
          · exact ht
        · rintro rfl
          exact .inr ⟨hge, rfl⟩
      · cases h
  ambiguous wall earliest latest h := by
    simp only [changing] at h
    simp only [changing_naive]
    split at h
    · rename_i hlt
      split at h
      · rename_i hge
        split at h
        · cases h
        · cases h
          refine ⟨lt_of_lt_of_le hlt hge, .inl ⟨hlt, rfl⟩, .inr ⟨hge, rfl⟩, ?_⟩
          rintro t (⟨-, rfl⟩ | ⟨ht, -⟩)
          · exact le_rfl
          · exact (le_of_lt hlt).trans ht
      · cases h
    · split at h <;> cases h

theorem changing_bounded {at_ : Instant} {before after : Int} (hbefore : -day < before ∧ before < day)
    (hafter : -day < after ∧ after < day) : (changing at_ before after).Bounded := by
  intro t
  simp only [changing]
  split
  · exact hbefore
  · exact hafter

theorem computeNextRunAt_next_sample :
    ComputesNext (changing 0 0 0) .daily (some "09:00") none (10 * hour) := by
  have hnext := computeNextRunAt_next (changing 0 0 0)
    (changing_bounded ⟨by decide, by decide⟩ ⟨by decide, by decide⟩) (changing_lawful 0 0 0) .daily
    (some "09:00") none (fun h => nomatch h) (by decide) (10 * hour)
  apply hnext.1.2
  apply hnext.2.1
  intro t _ _
  simp [changing]

/-- On the day the clocks go from two to three there is no next run at half past two. -/
theorem computeNextRunAt_not_next :
    ¬ ∀ (z : Local), z.Bounded → z.Lawful → ∀ (kind : ScheduleKind) (time : Option String)
      (dow : Option Int), kind ≠ .manual → validateSchedule kind time dow = .ok () →
        ∀ from_, ComputesNext z kind time dow from_ := by
  intro hall
  obtain ⟨t, hcompute, -⟩ := hall (changing (2 * hour) 0 hour)
    (changing_bounded ⟨by decide, by decide⟩ ⟨by decide, by decide⟩) (changing_lawful (2 * hour) 0 hour)
    .daily (some "02:30") none (fun h => nomatch h) (by decide) hour
  have hnone : computeNextRunAt (changing (2 * hour) 0 hour) .daily (some "02:30") none true hour =
      none := by decide
  rw [hnone] at hcompute
  cases hcompute

end Cdesktop.RoutineSchedule
