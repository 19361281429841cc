import Odatano.RateLimiter

/-!
# Runs of the rate limiter

What holds after any calls on a clock that does not go back: the limits on keys, the limit on
hits in every window, and what a refusal and a peek promise.
-/

namespace Odatano

open SlidingWindow RateLimiter

namespace RateLimiter

variable (opts : RateLimiterOptions) (now : Int)

/-! ## What an operation does to the times of a key -/

theorem timestamps_reinsert (l : RateLimiter) (key other : JsString) (times : List Int) :
    (l.reinsert key times).timestamps other = if key = other then times else l.timestamps other := by
  rw [timestamps, reinsert, OrderedMap.get?_set, OrderedMap.get?_delete]
  split <;> rfl

theorem timestamps_dropKey (l : RateLimiter) (key other : JsString) :
    (l.dropKey key).timestamps other = if key = other then [] else l.timestamps other := by
  unfold dropKey
  by_cases tracked : l.has key = true
  · rw [if_pos tracked, timestamps, OrderedMap.get?_delete]
    split <;> rfl
  · rw [if_neg tracked]
    split
    · rename_i same
      subst same
      rw [timestamps, Option.not_isSome_iff_eq_none.mp tracked, Option.getD_none]
    · rfl

theorem timestamps_of_not_has {l : RateLimiter} {key : JsString} (absent : l.has key = false) :
    l.timestamps key = [] := by
  rw [has, Option.isSome_eq_false_iff, Option.isNone_iff_eq_none] at absent
  rw [timestamps, absent, Option.getD_none]

/-- The key a call pushes out. -/
def evictedBy (l : RateLimiter) (key : JsString) (count : Int) : Option JsString :=
  if count ≤ 0 ∨ l.has key = true ∨ (l.track opts key).isNone then none else l.oldest? opts

theorem timestamps_track {l l' : RateLimiter} {key : JsString} {count : Int} (positive : 0 < count)
    (tracks : l.track opts key = some l') (other : JsString) :
    l'.timestamps other =
      if l.evictedBy opts key count = some other then [] else l.timestamps other := by
  have isCall : ¬count ≤ 0 := Int.not_le.mpr positive
  rw [evictedBy, tracks]
  rcases (track_eq_some_iff opts).mp tracks with ⟨tracked, rfl⟩ | ⟨absent, -, rfl⟩
  · simp [tracked]
  · change (l.evict opts).timestamps other = _
    rw [evict]
    cases first : l.oldest? opts with
    | none => simp
    | some oldest =>
        have dropped := timestamps_dropKey l oldest other
        simp [isCall, absent, dropped]

/-- A sweep forgets times that no window ending now or later holds. -/
theorem timestamps_sweep (l : RateLimiter) (key : JsString) :
    (l.sweep opts now).timestamps key = l.timestamps key ∨
      (l.sweep opts now).timestamps key = [] ∧
        within opts.windowMs now (l.timestamps key) = [] := by
  have swept (rows : List (JsString × List Int)) (part : RateLimiter)
      (stored : ∀ entry ∈ rows, l.timestamps entry.1 = entry.2)
      (settled : part.timestamps key = l.timestamps key ∨ part.timestamps key = [] ∧
        within opts.windowMs now (l.timestamps key) = []) :
      (rows.foldl (fun l entry =>
        if entry.2.any fun t => decide (now - opts.windowMs < t) then l
        else l.dropKey entry.1) part).timestamps key = l.timestamps key ∨
      (rows.foldl (fun l entry =>
        if entry.2.any fun t => decide (now - opts.windowMs < t) then l
        else l.dropKey entry.1) part).timestamps key = [] ∧
        within opts.windowMs now (l.timestamps key) = [] := by
    induction rows generalizing part with
    | nil => exact settled
    | cons entry rows ih =>
        rw [List.foldl_cons]
        refine ih _ (fun other member => stored other (List.mem_cons_of_mem _ member)) ?_
        split
        · exact settled
        · rename_i outdated
          rw [timestamps_dropKey]
          split
          · rename_i same
            subst same
            refine Or.inr ⟨rfl, ?_⟩
            rw [stored entry List.mem_cons_self, within, List.filter_eq_nil_iff]
            intro t member inWindow
            exact outdated (List.any_eq_true.mpr ⟨t, member, inWindow⟩)
          · exact settled
  refine swept l.hits.rows l (fun entry member => ?_) (Or.inl rfl)
  rw [timestamps, OrderedMap.get?_eq_some_iff.mpr member, Option.getD_some]

/-- What a call with a positive count does. -/
theorem checkMany_cases (l : RateLimiter) (key : JsString) {count : Int} (positive : 0 < count) :
    GroupFull opts l key ∧ l.checkMany opts now key count = (⟨false, opts.windowMs⟩, l) ∨
    ∃ l', l.track opts key = some l' ∧
      (opts.maxRequests < (within opts.windowMs now (l'.timestamps key)).length + count ∧
        l.checkMany opts now key count =
          (⟨false, max (match ((within opts.windowMs now (l'.timestamps key)).insertionSort
              (· ≤ ·)).head? with
            | none => (opts.windowMs : Int)
            | some oldest => oldest + opts.windowMs - now) 0⟩,
            l'.reinsert key ((within opts.windowMs now (l'.timestamps key)).insertionSort
              (· ≤ ·))) ∨
      (within opts.windowMs now (l'.timestamps key)).length + count ≤ opts.maxRequests ∧
        l.checkMany opts now key count =
          (⟨true, 0⟩, l'.reinsert key (within opts.windowMs now (l'.timestamps key) ++
            List.replicate count.toNat now))) := by
  have isCall : ¬count ≤ 0 := Int.not_le.mpr positive
  unfold checkMany
  rw [if_neg isCall]
  cases tracks : l.track opts key with
  | none => exact Or.inl ⟨(track_eq_none_iff opts).mp tracks, rfl⟩
  | some l' =>
      refine Or.inr ⟨l', rfl, ?_⟩
      dsimp only
      split
      · rename_i exceeds
        exact Or.inl ⟨exceeds, rfl⟩
      · rename_i fits
        exact Or.inr ⟨Int.not_lt.mp fits, rfl⟩

end RateLimiter

/-! ## Runs -/

inductive RateCall
  | check (key : JsString)
  | checkMany (key : JsString) (count : Int)
  | peek (key : JsString)
  | sweep

/-- The limiter, the clock, and the hits admitted for each key since it was last evicted. -/
structure LimiterRun where
  limiter : RateLimiter
  clock : Int
  admitted : JsString → List Int

namespace LimiterRun

variable (opts : RateLimiterOptions)

def fresh (clock : Int) : LimiterRun := ⟨.fresh, clock, fun _ => []⟩

def hit (run : LimiterRun) (now : Int) (key : JsString) (count : Int) : LimiterRun :=
  let answer := run.limiter.checkMany opts now key count
  { limiter := answer.2
    clock := now
    admitted := fun other =>
      (if run.limiter.evictedBy opts key count = some other then [] else run.admitted other) ++
        if key = other ∧ answer.1.allowed = true then List.replicate count.toNat now else [] }

def step (run : LimiterRun) (now : Int) : RateCall → LimiterRun
  | .check key => run.hit opts now key 1
  | .checkMany key count => run.hit opts now key count
  | .peek _ => { run with clock := now }
  | .sweep => { run with limiter := run.limiter.sweep opts now, clock := now }

/-- The states that calls on a clock that does not go back lead to. -/
inductive Reached : LimiterRun → Prop
  | fresh (clock : Int) : Reached (fresh clock)
  | next {run : LimiterRun} (reached : Reached run) {now : Int} (passes : run.clock ≤ now)
      (call : RateCall) : Reached (run.step opts now call)

/-- The kept times of every key count what was admitted for it. -/
structure Windows (run : LimiterRun) : Prop where
  past : ∀ key, ∀ t ∈ run.admitted key, t ≤ run.clock
  atMost : ∀ key, AtMost opts.maxRequests opts.windowMs (run.admitted key)
  kept : ∀ key, within opts.windowMs run.clock (run.limiter.timestamps key) =
    within opts.windowMs run.clock (run.admitted key)
  order : ∀ key, (run.limiter.timestamps key).Pairwise (· ≤ ·)
  recorded : ∀ key, ∀ t ∈ run.limiter.timestamps key, t ≤ run.clock

variable {opts}

theorem Windows.advance {run : LimiterRun} (windows : Windows opts run) {now : Int}
    (passes : run.clock ≤ now) : Windows opts { run with clock := now } where
  past key t member := (windows.past key t member).trans passes
  atMost := windows.atMost
  kept key := within_eq_of_le passes (windows.kept key)
  order := windows.order
  recorded key t member := (windows.recorded key t member).trans passes

/-- The hits of a key inside the window that ends at the clock. -/
theorem Windows.length_le {run : LimiterRun} (windows : Windows opts run) (key : JsString) :
    (within opts.windowMs run.clock (run.limiter.timestamps key)).length ≤ opts.maxRequests := by
  rw [windows.kept]
  exact (windows.atMost key).length_within (windows.past key)

theorem Windows.within_order {run : LimiterRun} (windows : Windows opts run) (key : JsString) :
    (within opts.windowMs run.clock (run.limiter.timestamps key)).Pairwise (· ≤ ·) :=
  (windows.order key).filter _

theorem Windows.within_sorted {run : LimiterRun} (windows : Windows opts run) (key : JsString) :
    (within opts.windowMs run.clock (run.limiter.timestamps key)).insertionSort (· ≤ ·) =
      within opts.windowMs run.clock (run.limiter.timestamps key) :=
  List.Pairwise.insertionSort_eq (windows.within_order key)

/-- The eviction before a call. -/
theorem Windows.track {run : LimiterRun} (windows : Windows opts run) {key : JsString}
    {count : Int} (positive : 0 < count) {l' : RateLimiter}
    (tracks : run.limiter.track opts key = some l') :
    Windows opts ⟨l', run.clock, fun other =>
      if run.limiter.evictedBy opts key count = some other then [] else run.admitted other⟩ := by
  have times := timestamps_track opts positive tracks
  refine ⟨fun other => ?_, fun other => ?_, fun other => ?_, fun other => ?_, fun other => ?_⟩
  · dsimp only
    split
    · exact fun _ member => absurd member List.not_mem_nil
    · exact windows.past other
  · dsimp only
    split
    · exact atMost_nil
    · exact windows.atMost other
  · dsimp only
    rw [times]
    split
    · rfl
    · exact windows.kept other
  · dsimp only
    rw [times]
    split
    · exact List.Pairwise.nil
    · exact windows.order other
  · dsimp only
    rw [times]
    split
    · exact fun _ member => absurd member List.not_mem_nil
    · exact windows.recorded other

/-- The hits of a call that fit are recorded behind the ones still in the window. -/
theorem Windows.record {run : LimiterRun} (windows : Windows opts run) (key : JsString)
    {added : Nat} (fits : (within opts.windowMs run.clock
      (run.limiter.timestamps key)).length + added ≤ opts.maxRequests) :
    Windows opts ⟨run.limiter.reinsert key (within opts.windowMs run.clock
        (run.limiter.timestamps key) ++ List.replicate added run.clock), run.clock, fun other =>
      run.admitted other ++ if key = other then List.replicate added run.clock else []⟩ := by
  refine ⟨fun other t member => ?_, fun other => ?_, fun other => ?_, fun other => ?_,
    fun other => ?_⟩
  · rcases List.mem_append.mp member with before | new
    · exact windows.past other t before
    · split at new
      · exact (List.eq_of_mem_replicate new).le
      · exact absurd new List.not_mem_nil
  · dsimp only
    split
    · rename_i same
      subst same
      exact (windows.atMost key).append (windows.kept key ▸ fits)
    · rw [List.append_nil]
      exact windows.atMost other
  · dsimp only
    rw [timestamps_reinsert]
    split
    · rename_i same
      subst same
      rw [within_append, within_append, within_within le_rfl, windows.kept]
    · rw [List.append_nil]
      exact windows.kept other
  · dsimp only
    rw [timestamps_reinsert]
    split
    · rw [List.pairwise_append]
      refine ⟨(windows.order key).filter _, List.pairwise_replicate.mpr (Or.inr le_rfl),
        fun t before u new => ?_⟩
      rw [List.eq_of_mem_replicate new]
      exact windows.recorded key t (List.mem_of_mem_filter before)
    · exact windows.order other
  · dsimp only
    rw [timestamps_reinsert]
    split
    · intro t member
      rcases List.mem_append.mp member with before | new
      · exact windows.recorded key t (List.mem_of_mem_filter before)
      · exact (List.eq_of_mem_replicate new).le
    · exact windows.recorded other

/-- A call that records nothing and evicts nothing. -/
theorem hit_of_same {run : LimiterRun} {key : JsString} {count : Int}
    (limiter : (run.limiter.checkMany opts run.clock key count).2 = run.limiter)
    (evicted : run.limiter.evictedBy opts key count = none)
    (none : (run.limiter.checkMany opts run.clock key count).1.allowed = true → count.toNat = 0) :
    run.hit opts run.clock key count = run := by
  have admitted : (fun other => (if run.limiter.evictedBy opts key count = some other then []
      else run.admitted other) ++
      if key = other ∧ (run.limiter.checkMany opts run.clock key count).1.allowed = true then
        List.replicate count.toNat run.clock else []) = run.admitted := by
    funext other
    rw [evicted, if_neg nofun]
    split
    · rename_i isAllowed
      rw [none isAllowed.2, List.replicate_zero, List.append_nil]
    · rw [List.append_nil]
  rw [hit, limiter, admitted]

/-- One call for one key, at the time the clock shows. -/
theorem Windows.hit {run : LimiterRun} (windows : Windows opts run) (key : JsString)
    (count : Int) : Windows opts (run.hit opts run.clock key count) := by
  by_cases positive : 0 < count
  · rcases checkMany_cases opts run.clock run.limiter key positive with
      ⟨full, answer⟩ | ⟨l', tracks, answer⟩
    · have none := (track_eq_none_iff opts).mpr full
      rw [hit_of_same (by rw [answer]) (by simp [evictedBy, none]) (by rw [answer]; nofun)]
      exact windows
    · have tracked := windows.track positive tracks
      rcases answer with ⟨-, answer⟩ | ⟨fits, answer⟩
      · have none : (within opts.windowMs run.clock (l'.timestamps key)).length + 0 ≤
            opts.maxRequests := tracked.length_le key
        have recorded := tracked.record key none
        rw [tracked.within_sorted] at answer
        simp only [List.replicate_zero, List.append_nil, ite_self] at recorded
        rw [LimiterRun.hit, answer]
        simpa using recorded
      · have room : (within opts.windowMs run.clock (l'.timestamps key)).length + count.toNat ≤
            opts.maxRequests := by omega
        have recorded := tracked.record key room
        rw [LimiterRun.hit, answer]
        simpa using recorded
  · have none : count ≤ 0 := Int.not_lt.mp positive
    rw [hit_of_same (by rw [checkMany, if_pos none]) (by simp [evictedBy, none])
      fun _ => Int.toNat_of_nonpos none]
    exact windows

theorem Windows.sweep {run : LimiterRun} (windows : Windows opts run) :
    Windows opts { run with limiter := run.limiter.sweep opts run.clock } := by
  have swept := timestamps_sweep opts run.clock run.limiter
  refine ⟨windows.past, windows.atMost, fun key => ?_, fun key => ?_, fun key => ?_⟩
  · rw [← windows.kept]
    rcases swept key with same | ⟨gone, outdated⟩
    · rw [same]
    · rw [gone, outdated, within_nil]
  · rcases swept key with same | ⟨gone, -⟩
    · rw [same]
      exact windows.order key
    · rw [gone]
      exact List.Pairwise.nil
  · rcases swept key with same | ⟨gone, -⟩
    · rw [same]
      exact windows.recorded key
    · rw [gone]
      exact fun _ member => absurd member List.not_mem_nil

/-- What holds of every state reached. -/
structure Sound (opts : RateLimiterOptions) (run : LimiterRun) : Prop where
  inStep : InStep opts run.limiter
  windows : Windows opts run

theorem Sound.step {run : LimiterRun} (sound : Sound opts run) {now : Int}
    (passes : run.clock ≤ now) (call : RateCall) : Sound opts (run.step opts now call) := by
  have windows := sound.windows.advance passes
  cases call with
  | check key => exact ⟨sound.inStep.checkMany opts now key 1, windows.hit key 1⟩
  | checkMany key count => exact ⟨sound.inStep.checkMany opts now key count, windows.hit key count⟩
  | peek key => exact ⟨sound.inStep, windows⟩
  | sweep => exact ⟨sound.inStep.sweep opts now, windows.sweep⟩

theorem Reached.sound {run : LimiterRun} (reached : Reached opts run) : Sound opts run := by
  induction reached with
  | fresh clock =>
      exact ⟨⟨fun _ => rfl, Nat.zero_le _, fun _ => Nat.zero_le _⟩,
        ⟨fun _ _ member => absurd member List.not_mem_nil, fun _ => atMost_nil, fun _ => rfl,
          fun _ => List.Pairwise.nil, fun _ _ member => absurd member List.not_mem_nil⟩⟩
  | next _ passes call ih => exact ih.step passes call

/-! ## What an answer promises -/

/-- A refusal's time is enough for one hit, if nothing else happens. -/
def RetrySuffices (opts : RateLimiterOptions) (run : LimiterRun) (key : JsString) (count : Int) :
    Prop :=
  let answer := run.limiter.checkMany opts run.clock key count
  answer.1.allowed = false →
    (answer.2.check opts (run.clock + answer.1.retryAfterMs) key).1.allowed = true

/-- A peek answers what a check would answer. -/
def PeekAgrees (opts : RateLimiterOptions) (run : LimiterRun) (key : JsString) : Prop :=
  run.limiter.peek opts run.clock key = (run.limiter.check opts run.clock key).1

theorem check_of_room {l l' : RateLimiter} {now : Int} {key : JsString}
    (tracks : l.track opts key = some l')
    (room : (within opts.windowMs now (l'.timestamps key)).length < opts.maxRequests) :
    (l.check opts now key).1 = ⟨true, 0⟩ := by
  rcases checkMany_cases opts now l key Int.one_pos with
    ⟨full, -⟩ | ⟨other, isOther, answer⟩
  · rw [(track_eq_none_iff opts).mpr full] at tracks
    cases tracks
  · rw [tracks, Option.some.injEq] at isOther
    subst isOther
    rcases answer with ⟨exceeds, -⟩ | ⟨-, answer⟩
    · omega
    · rw [check, answer]

theorem track_of_has {l : RateLimiter} {key : JsString} (tracked : l.has key = true) :
    l.track opts key = some l :=
  (track_eq_some_iff opts).mpr (Or.inl ⟨tracked, rfl⟩)

theorem has_reinsert (l : RateLimiter) (key : JsString) (times : List Int) :
    (l.reinsert key times).has key = true := by
  rw [has, reinsert, OrderedMap.get?_set, if_pos rfl]
  rfl

/-- No window that ends after the oldest time has left holds as many. -/
theorem length_within_lt {limit window : Nat} (positive : 0 < limit) {times : List Int}
    (fits : times.length ≤ limit) (now : Int) {later : Int} (waits : ∀ oldest ∈ times.head?,
      oldest + window - now ≤ later - now) : (within window later times).length < limit := by
  cases times with
  | nil => exact positive
  | cons oldest times =>
      have left := waits oldest rfl
      have gone : within window later (oldest :: times) = within window later times := by
        refine List.filter_cons_of_neg ?_
        rw [decide_eq_true_eq]
        omega
      rw [gone]
      exact (List.length_filter_le _ _).trans_lt fits

/-- The oldest time of a full window leaves it when the refusal says. -/
theorem Windows.retrySuffices {run : LimiterRun} (windows : Windows opts run) {key : JsString}
    (groupRoom : ¬GroupFull opts run.limiter key) (count : Int) :
    RetrySuffices opts run key count := by
  unfold RetrySuffices
  dsimp only
  by_cases positive : 0 < count
  · rcases checkMany_cases opts run.clock run.limiter key positive with
      ⟨full, -⟩ | ⟨l', tracks, ⟨-, answer⟩ | ⟨-, answer⟩⟩
    · exact absurd full groupRoom
    · intro _
      have tracked := windows.track positive tracks
      rw [tracked.within_sorted] at answer
      rw [answer]
      rw [check_of_room (track_of_has (has_reinsert l' key _)) ?_]
      rw [timestamps_reinsert, if_pos rfl]
      refine length_within_lt opts.maxRequests_pos (tracked.length_le key) run.clock ?_
      intro oldest first
      rw [Option.mem_def] at first
      dsimp only at first ⊢
      rw [first]
      dsimp only
      omega
    · rw [answer]
      nofun
  · rw [checkMany, if_pos (Int.not_lt.mp positive)]
    nofun

/-- The times of a key that a call is about survive the eviction. -/
theorem timestamps_track_self {l l' : RateLimiter} {key : JsString}
    (tracks : l.track opts key = some l') : l'.timestamps key = l.timestamps key := by
  rw [timestamps_track opts Int.one_pos tracks]
  split
  · rename_i evicted
    rw [evictedBy] at evicted
    split at evicted
    · cases evicted
    · rename_i absent
      have absent : l.has key = false := by simp_all
      exact (timestamps_of_not_has absent).symm
  · rfl

theorem Windows.peekAgrees {run : LimiterRun} (windows : Windows opts run) {key : JsString}
    (groupRoom : ¬GroupFull opts run.limiter key) : PeekAgrees opts run key := by
  unfold PeekAgrees peek
  cases tracks : run.limiter.track opts key with
  | none => exact absurd ((track_eq_none_iff opts).mp tracks) groupRoom
  | some l' =>
      have same := timestamps_track_self tracks
      dsimp only
      split
      · rename_i room
        rw [check_of_room tracks (same ▸ room)]
      · rename_i full
        rcases checkMany_cases opts run.clock run.limiter key Int.one_pos with
          ⟨groupFull, -⟩ | ⟨other, isOther, ⟨-, answer⟩ | ⟨fits, -⟩⟩
        · exact absurd groupFull groupRoom
        · rw [tracks, Option.some.injEq] at isOther
          subst isOther
          rw [check, answer, same, windows.within_sorted,
            min?_eq_head? (windows.within_order key)]
          cases times : (within opts.windowMs run.clock (run.limiter.timestamps key)).head? with
          | none =>
              rw [List.head?_eq_none_iff] at times
              rw [times, List.length_nil] at full
              exact absurd opts.maxRequests_pos full
          | some oldest => rfl
        · rw [tracks, Option.some.injEq] at isOther
          subst isOther
          rw [same] at fits
          omega

/-- A peek at a new key of a full group finds no hit, while a check is refused. -/
theorem not_peekAgrees {run : LimiterRun} {key : JsString}
    (full : GroupFull opts run.limiter key) : ¬PeekAgrees opts run key := by
  have refused : (run.limiter.check opts run.clock key).1.allowed = false := by
    rw [check, checkMany, if_neg (by decide), (track_eq_none_iff opts).mpr full]
  have fits : (run.limiter.peek opts run.clock key).allowed = true := by
    rw [peek, timestamps_of_not_has full.1]
    exact congrArg RateCheckResult.allowed (if_pos opts.maxRequests_pos)
  intro agrees
  rw [PeekAgrees] at agrees
  rw [agrees, refused] at fits
  cases fits

/-- The limits on windows, keys and groups. -/
structure LimitsKept (opts : RateLimiterOptions) (run : LimiterRun) : Prop where
  window : ∀ key, AtMost opts.maxRequests opts.windowMs (run.admitted key)
  keys : run.limiter.hits.rows.length ≤ opts.maxKeys
  counts : ∀ group, run.limiter.groupCount group = run.limiter.groupSize group
  group : ∀ group, run.limiter.groupCount group ≤ opts.maxKeysPerGroup

/-- A call records all of its hits behind the ones in the window, or none. -/
def AllOrNone (opts : RateLimiterOptions) (run : LimiterRun) (key : JsString) (count : Int) :
    Prop :=
  let answer := run.limiter.checkMany opts run.clock key count
  within opts.windowMs run.clock (answer.2.timestamps key) =
    within opts.windowMs run.clock (run.limiter.timestamps key) ++
      within opts.windowMs run.clock
        (if answer.1.allowed = true then List.replicate count.toNat run.clock else [])

theorem Windows.allOrNone {run : LimiterRun} (windows : Windows opts run) (key : JsString)
    (count : Int) : AllOrNone opts run key count := by
  unfold AllOrNone
  dsimp only
  by_cases positive : 0 < count
  · rcases checkMany_cases opts run.clock run.limiter key positive with
      ⟨-, answer⟩ | ⟨l', tracks, ⟨-, answer⟩ | ⟨-, answer⟩⟩
    · rw [answer]
      simp
    · rw [timestamps_track_self tracks, windows.within_sorted] at answer
      rw [answer, timestamps_reinsert, if_pos rfl, within_within le_rfl]
      simp
    · rw [timestamps_track_self tracks] at answer
      rw [answer, timestamps_reinsert, if_pos rfl, within_append, within_within le_rfl, if_pos rfl]
  · have none := Int.not_lt.mp positive
    rw [checkMany, if_pos none, Int.toNat_of_nonpos none]
    simp

end LimiterRun

open LimiterRun

/-- After any calls the limits are kept and the next call records all of its hits or none.  What a
refusal promises and what a peek answers is right exactly unless the key is new and its group is
full. -/
theorem rateLimiter_keeps_iff {opts : RateLimiterOptions} {run : LimiterRun}
    (reached : Reached opts run) {now : Int} (passes : run.clock ≤ now) (key : JsString)
    (count : Int) :
    LimitsKept opts run ∧ AllOrNone opts { run with clock := now } key count ∧
      (RetrySuffices opts { run with clock := now } key count ∧
        PeekAgrees opts { run with clock := now } key ↔ ¬GroupFull opts run.limiter key) := by
  have inStep := reached.sound.inStep
  have windows := reached.sound.windows.advance passes
  refine ⟨⟨windows.atMost, inStep.keys, inStep.counts, fun group => ?_⟩, windows.allOrNone key count,
    fun holds full => @not_peekAgrees opts { run with clock := now } key full holds.2,
    fun groupRoom => ⟨windows.retrySuffices groupRoom count, windows.peekAgrees groupRoom⟩⟩
  rw [inStep.counts]
  exact inStep.group group

/-- One key of a principal, one request a second. -/
def oneKeyPerGroup : RateLimiterOptions := ⟨1000, 1, none, some 1, by decide⟩

/-- After one call for the key `a:x`. -/
def oneKeyRun : LimiterRun := (LimiterRun.fresh 0).step oneKeyPerGroup 0 (.check [97, 58, 120])

theorem reached_oneKeyRun : Reached oneKeyPerGroup oneKeyRun :=
  .next (.fresh 0) le_rfl _

theorem rateLimiter_keeps_sample :
    RetrySuffices oneKeyPerGroup { oneKeyRun with clock := 5 } [97, 58, 120] 1 ∧
      PeekAgrees oneKeyPerGroup { oneKeyRun with clock := 5 } [97, 58, 120] :=
  (rateLimiter_keeps_iff reached_oneKeyRun (by decide) [97, 58, 120] 1).2.2.mpr
    fun full => absurd full.1 (by decide)

/-- A peek at a second key of the principal answers that a hit fits; the check is refused. -/
theorem peek_ignores_group :
    ¬∀ (opts : RateLimiterOptions) (run : LimiterRun), Reached opts run →
      ∀ now, run.clock ≤ now → ∀ key count,
        LimitsKept opts run ∧ AllOrNone opts { run with clock := now } key count ∧
          RetrySuffices opts { run with clock := now } key count ∧
          PeekAgrees opts { run with clock := now } key := by
  intro claimed
  have holds := claimed oneKeyPerGroup oneKeyRun reached_oneKeyRun 5 (by decide) [97, 58, 121] 1
  exact absurd holds.2.2.2 (not_peekAgrees ⟨by decide, by decide⟩)

end Odatano
