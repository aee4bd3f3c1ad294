import RlNginx.Lib.Backoff
import RlNginx.World

/-!
# Retries of the worker's initialization

A protected request calls `rn_worker_ensure`, which calls `rn_worker_init` as long as there is no
worker. After a failure it does not do so again for a while : `init_retry_at` is the end of the
pause, and `init_retry_delay` the length of the next one, with zero for "unset" in both.

`ensureCalls` is a sequence of calls with the state each of them finds. What the calls do is
what `Backoff` asks for with pauses of `min (1000 * 2 ^ k) 5000` milliseconds
(`ensureCalls_follows`). The clock is a number that does not wrap; `retryPending_iff` says that
the comparison of the source, which is made on 64-bit words, then gives the same answer.
-/

open Backoff

namespace RlNginx

/-- `rn_worker_ensure` with whether it returned `NGX_OK` and whether it called
`rn_worker_init`. -/
def rnWorkerEnsureTraced (mcf : MainConf) (bind : Option AddressFamily) (env : InitEnv)
    (p : Proc) : Proc × Bool × Bool :=
  if p.worker.isSome then (p, true, false)
  else if p.initRetryAt ≠ 0 ∧ env.currentMsec < p.initRetryAt then (p, false, false)
  else
    match rnWorkerInit mcf bind env p.os with
    | (os, some w) =>
      ({ p with worker := some w, initRetryAt := 0, initRetryDelay := 0, os }, true, true)
    | (os, none) =>
      let delay := if p.initRetryDelay = 0 then rnInitRetryInitialMs else p.initRetryDelay
      ({ p with
        initRetryAt := env.currentMsec + delay
        initRetryDelay := if delay < rnInitRetryMaxMs / 2 then delay * 2 else rnInitRetryMaxMs
        os }, false, true)

/-- The calls of a sequence, each with the state it finds. -/
def ensureCalls (mcf : MainConf) (bind : Option AddressFamily) :
    Proc → List InitEnv → List (Proc × InitEnv)
  | _, [] => []
  | p, env :: envs => (p, env) :: ensureCalls mcf bind (rnWorkerEnsure mcf bind env p).1 envs

/-- A call as `Backoff` sees it. -/
def ensureCall (mcf : MainConf) (bind : Option AddressFamily) (x : Proc × InitEnv) : Call where
  now := x.2.currentMsec
  attempted := (rnWorkerEnsureTraced mcf bind x.2 x.1).2.2
  ok := (rnWorkerEnsureTraced mcf bind x.2 x.1).2.1

/-- The pause after the `k`-th failure in a row. -/
def retryDelay (k : ℕ) : ℕ := min (1000 * 2 ^ k) 5000

/-- What `delay` is after a failure. -/
def Proc.retryPause (p : Proc) : ℕ :=
  if p.initRetryDelay = 0 then rnInitRetryInitialMs else p.initRetryDelay

/-- The retry state of a process, as `Backoff` sees it. -/
def Retries (p : Proc) : State → Prop
  | .ready => p.worker = none ∧ p.initRetryAt = 0 ∧ p.initRetryDelay = 0
  | .waiting k since =>
    p.worker = none ∧ p.initRetryAt = since + retryDelay k ∧ p.initRetryDelay = retryDelay (k + 1)
  | .settled => p.worker.isSome = true

section Calls

variable {mcf : MainConf} {bind : Option AddressFamily} {env : InitEnv} {envs : List InitEnv}
  {p : Proc} {st : State}

/-- Without the trace it is `rn_worker_ensure`. -/
theorem rnWorkerEnsureTraced_eq (mcf : MainConf) (bind : Option AddressFamily) (env : InitEnv)
    (p : Proc) : ((rnWorkerEnsureTraced mcf bind env p).1,
      (rnWorkerEnsureTraced mcf bind env p).2.1) = rnWorkerEnsure mcf bind env p := by
  unfold rnWorkerEnsureTraced rnWorkerEnsure
  split
  · rfl
  · split
    · rfl
    · rcases rnWorkerInit mcf bind env p.os with ⟨os, _ | w⟩ <;> rfl

/-- The delay stored for the next failure. -/
theorem retryDelay_succ (k : ℕ) : retryDelay (k + 1) =
    if retryDelay k < rnInitRetryMaxMs / 2 then retryDelay k * 2 else rnInitRetryMaxMs := by
  unfold retryDelay rnInitRetryMaxMs
  rw [Nat.pow_succ]
  split_ifs <;> omega

theorem retryDelay_pos (k : ℕ) : 0 < retryDelay k := by
  have hpow : 0 < 2 ^ k := Nat.pow_pos (by decide)
  unfold retryDelay
  omega

/-- What a call does : nothing when there is a worker or a pause, and an attempt otherwise. -/
theorem rnWorkerEnsureTraced_cases (mcf : MainConf) (bind : Option AddressFamily) (env : InitEnv)
    (p : Proc) :
    (p.worker.isSome = true ∧ rnWorkerEnsureTraced mcf bind env p = (p, true, false)) ∨
    (p.worker = none ∧ (p.initRetryAt ≠ 0 ∧ env.currentMsec < p.initRetryAt) ∧
      rnWorkerEnsureTraced mcf bind env p = (p, false, false)) ∨
    (p.worker = none ∧ ¬(p.initRetryAt ≠ 0 ∧ env.currentMsec < p.initRetryAt) ∧
      ((∃ os w, rnWorkerEnsureTraced mcf bind env p = (⟨some w, 0, 0, os⟩, true, true)) ∨
        ∃ os, rnWorkerEnsureTraced mcf bind env p = (⟨none, env.currentMsec + p.retryPause,
          if p.retryPause < rnInitRetryMaxMs / 2 then p.retryPause * 2 else rnInitRetryMaxMs,
          os⟩, false, true))) := by
  unfold rnWorkerEnsureTraced
  by_cases hsome : p.worker.isSome = true
  · exact .inl ⟨hsome, if_pos hsome⟩
  have hnone : p.worker = none := by simpa using hsome
  rw [if_neg hsome]
  by_cases hwait : p.initRetryAt ≠ 0 ∧ env.currentMsec < p.initRetryAt
  · exact .inr (.inl ⟨hnone, hwait, if_pos hwait⟩)
  rw [if_neg hwait]
  refine .inr (.inr ⟨hnone, hwait, ?_⟩)
  rcases rnWorkerInit mcf bind env p.os with ⟨os, _ | w⟩
  · exact .inr ⟨os, by rw [hnone, Proc.retryPause]⟩
  · exact .inl ⟨os, w, rfl⟩

/-- A call without an attempt changes nothing. -/
theorem rnWorkerEnsureTraced_quiet (h : (rnWorkerEnsureTraced mcf bind env p).2.2 = false) :
    (rnWorkerEnsureTraced mcf bind env p).1 = p := by
  rcases rnWorkerEnsureTraced_cases mcf bind env p with
    ⟨-, heq⟩ | ⟨-, -, heq⟩ | ⟨-, -, ⟨os, w, heq⟩ | ⟨os, heq⟩⟩
  · rw [heq]
  · rw [heq]
  · rw [heq] at h
    exact absurd h (by simp)
  · rw [heq] at h
    exact absurd h (by simp)

/-- While a worker is published there is no attempt. -/
theorem ensureCall_of_worker {x : Proc × InitEnv} (h : x.1.worker.isSome = true) :
    (ensureCall mcf bind x).attempted = false := by
  rw [ensureCall, rnWorkerEnsureTraced, if_pos h]

/-- A worker is published by an attempt that succeeds, and stays. -/
theorem rnWorkerEnsure_published (x : Proc × InitEnv) :
    (rnWorkerEnsure mcf bind x.2 x.1).1.worker.isSome = true ↔ x.1.worker.isSome = true ∨
      (ensureCall mcf bind x).attempted = true ∧ (ensureCall mcf bind x).ok = true := by
  rw [← rnWorkerEnsureTraced_eq, ensureCall]
  dsimp only
  rcases rnWorkerEnsureTraced_cases mcf bind x.2 x.1 with
    ⟨hsome, heq⟩ | ⟨hnone, -, heq⟩ | ⟨hnone, -, ⟨os, w, heq⟩ | ⟨os, heq⟩⟩
  · rw [heq]
    simp
  · rw [heq]
    simp
  · rw [heq]
    simp
  · rw [heq, hnone]
    simp

/-- A failure is followed by the pause for its number. -/
theorem Retries.retryPause_eq (h : Retries p st) (hnone : p.worker = none) :
    p.retryPause = retryDelay st.failures := by
  unfold Proc.retryPause
  rcases st with _ | ⟨k, since⟩ | _
  · rw [if_pos h.2.2]
    rfl
  · have hpos := retryDelay_pos (k + 1)
    rw [h.2.2, if_neg (by omega)]
    rfl
  · rw [Retries, hnone] at h
    exact absurd h (by decide)

/-- The state asks for an attempt when there is neither a worker nor a pause. -/
theorem Retries.attempts_iff (h : Retries p st) (now : ℕ) :
    st.attempts retryDelay now = true ↔
      p.worker = none ∧ ¬(p.initRetryAt ≠ 0 ∧ now < p.initRetryAt) := by
  rcases st with _ | ⟨k, since⟩ | _
  · exact iff_of_true rfl ⟨h.1, fun hwait => hwait.1 h.2.1⟩
  · have hpos := retryDelay_pos k
    rw [State.attempts, decide_eq_true_iff, h.1, h.2.1]
    simp only [true_and]
    omega
  · refine iff_of_false (by simp [State.attempts]) fun hnone => ?_
    rw [Retries, hnone.1] at h
    exact absurd h (by decide)

/-- A call makes an attempt when its state asks for one, and leaves the state it should. -/
theorem Retries.step (h : Retries p st) (env : InitEnv) :
    (ensureCall mcf bind (p, env)).attempted = st.attempts retryDelay env.currentMsec ∧
    Retries (rnWorkerEnsure mcf bind env p).1 (st.next (ensureCall mcf bind (p, env))) := by
  have hiff := h.attempts_iff env.currentMsec
  rw [← rnWorkerEnsureTraced_eq, ensureCall, State.next]
  dsimp only
  rcases rnWorkerEnsureTraced_cases mcf bind env p with
    ⟨hsome, heq⟩ | ⟨-, hwait, heq⟩ | ⟨hnone, hwait, ⟨os, w, heq⟩ | ⟨os, heq⟩⟩
  · rw [heq]
    refine ⟨?_, h⟩
    symm
    rw [← Bool.not_eq_true, hiff]
    rintro ⟨hnone, -⟩
    rw [hnone] at hsome
    exact absurd hsome (by decide)
  · rw [heq]
    refine ⟨?_, h⟩
    symm
    rw [← Bool.not_eq_true, hiff]
    exact fun hgo => hgo.2 hwait
  · rw [heq]
    exact ⟨(hiff.mpr ⟨hnone, hwait⟩).symm, rfl⟩
  · rw [heq, h.retryPause_eq hnone, ← retryDelay_succ]
    exact ⟨(hiff.mpr ⟨hnone, hwait⟩).symm, rfl, rfl, rfl⟩

/-- Every call of a sequence finds the state that the calls before it leave behind. -/
theorem ensureCalls_retries : ∀ {envs : List InitEnv} {p : Proc} {st : State}, Retries p st →
    ∀ {i : ℕ} {x : Proc × InitEnv}, (ensureCalls mcf bind p envs)[i]? = some x →
      Retries x.1 ((((ensureCalls mcf bind p envs).map (ensureCall mcf bind)).take i).foldl
        State.next st)
  | [], _, _, _, i, x, hx => by simp [ensureCalls] at hx
  | env :: envs, p, st, h, 0, x, hx => by
    obtain rfl : (p, env) = x := by simpa [ensureCalls] using hx
    exact h
  | env :: envs, p, st, h, i + 1, x, hx => by
    have hx' : (ensureCalls mcf bind (rnWorkerEnsure mcf bind env p).1 envs)[i]? = some x := by
      simpa [ensureCalls] using hx
    rw [ensureCalls, List.map_cons, List.take_succ_cons, List.foldl_cons]
    exact ensureCalls_retries (h.step env).2 hx'

/-- The calls follow the pauses. -/
theorem ensureCalls_follows (h : Retries p .ready) :
    Follows retryDelay ((ensureCalls mcf bind p envs).map (ensureCall mcf bind)) := by
  intro i c hc
  rw [List.getElem?_map] at hc
  obtain ⟨x, hx, rfl⟩ := Option.map_eq_some_iff.mp hc
  exact ((ensureCalls_retries h hx).step x.2).1

/-- The calls are those of the sequence. -/
theorem ensureCalls_env : ∀ (envs : List InitEnv) (p : Proc),
    (ensureCalls mcf bind p envs).map Prod.snd = envs
  | [], _ => rfl
  | env :: envs, _ => congrArg (env :: ·) (ensureCalls_env envs _)

/-- On a clock that does not go back, the calls are ordered. -/
theorem ensureCalls_ordered (hclock : (envs.map InitEnv.currentMsec).Pairwise (· ≤ ·)) :
    Ordered ((ensureCalls mcf bind p envs).map (ensureCall mcf bind)) := by
  refine ordered_of_pairwise ?_
  have htimes : ((ensureCalls mcf bind p envs).map (ensureCall mcf bind)).map Call.now =
      ((ensureCalls mcf bind p envs).map Prod.snd).map InitEnv.currentMsec := by
    simp [ensureCall]
  rwa [htimes, ensureCalls_env]

end Calls

/-! ## The clock -/

/-- The test of `rn_worker_ensure` on 64-bit words :
`init_retry_at != 0 && (ngx_msec_int_t) (init_retry_at - ngx_current_msec) > 0`. -/
def retryPending (initRetryAt currentMsec : BitVec 64) : Bool :=
  initRetryAt != 0 && decide (0 < (initRetryAt - currentMsec).toInt)

/-- On numbers that differ by less than half the range, the test is a comparison. -/
theorem retryPending_iff {initRetryAt now : ℕ} (hat : initRetryAt < 2 ^ 64) (hnow : now < 2 ^ 64)
    (hahead : initRetryAt < now + 2 ^ 63)
    (hbehind : initRetryAt ≠ 0 → now < initRetryAt + 2 ^ 63) :
    retryPending (BitVec.ofNat 64 initRetryAt) (BitVec.ofNat 64 now) = true ↔
      initRetryAt ≠ 0 ∧ now < initRetryAt := by
  have hzero : BitVec.ofNat 64 initRetryAt ≠ 0 ↔ initRetryAt ≠ 0 := by
    rw [Ne, ← BitVec.toNat_inj, BitVec.toNat_ofNat, Nat.mod_eq_of_lt hat]
    rfl
  have hsign : initRetryAt ≠ 0 → (0 < (BitVec.ofNat 64 initRetryAt - BitVec.ofNat 64 now).toInt ↔
      now < initRetryAt) := by
    intro hne
    have hnear := hbehind hne
    rw [BitVec.toInt_eq_toNat_cond, BitVec.toNat_sub, BitVec.toNat_ofNat, BitVec.toNat_ofNat,
      Nat.mod_eq_of_lt hat, Nat.mod_eq_of_lt hnow]
    omega
  rw [retryPending, Bool.and_eq_true, bne_iff_ne, decide_eq_true_iff, hzero]
  exact and_congr_right hsign

/-- No call finds a pause of more than five seconds. -/
theorem ensureCalls_bounded {mcf : MainConf} {bind : Option AddressFamily} :
    ∀ {envs : List InitEnv} {p : Proc}, (envs.map InitEnv.currentMsec).Pairwise (· ≤ ·) →
      (∀ env ∈ envs, p.initRetryAt ≤ env.currentMsec + 5000) → p.initRetryDelay ≤ 5000 →
      ∀ x ∈ ensureCalls mcf bind p envs, x.1.initRetryAt ≤ x.2.currentMsec + 5000
  | [], _, _, _, _, x, hx => absurd hx List.not_mem_nil
  | env :: envs, p, hclock, hat, hdelay, x, hx => by
    rw [List.map_cons, List.pairwise_cons] at hclock
    obtain ⟨hfirst, hclock⟩ := hclock
    have hlater : ∀ e ∈ envs, env.currentMsec ≤ e.currentMsec := fun e he =>
      hfirst _ (List.mem_map_of_mem he)
    have hrest : ∀ e ∈ envs, p.initRetryAt ≤ e.currentMsec + 5000 := fun e he =>
      hat e (List.mem_cons_of_mem _ he)
    rcases List.mem_cons.mp hx with rfl | hx
    · exact hat env List.mem_cons_self
    rw [← rnWorkerEnsureTraced_eq] at hx
    rcases rnWorkerEnsureTraced_cases mcf bind env p with
      ⟨-, heq⟩ | ⟨-, -, heq⟩ | ⟨-, -, ⟨os, w, heq⟩ | ⟨os, heq⟩⟩
    · rw [heq] at hx
      exact ensureCalls_bounded hclock hrest hdelay x hx
    · rw [heq] at hx
      exact ensureCalls_bounded hclock hrest hdelay x hx
    · rw [heq] at hx
      exact ensureCalls_bounded hclock (fun _ _ => Nat.zero_le _) (Nat.zero_le _) x hx
    · rw [heq] at hx
      have hpause : p.retryPause ≤ 5000 := by
        unfold Proc.retryPause rnInitRetryInitialMs
        split_ifs <;> omega
      refine ensureCalls_bounded hclock (fun e he => ?_) ?_ x hx
      · have hle := hlater e he
        change env.currentMsec + p.retryPause ≤ e.currentMsec + 5000
        omega
      · change (if p.retryPause < 5000 / 2 then p.retryPause * 2 else 5000) ≤ 5000
        split_ifs <;> omega

/-- Initialization is retried after pauses of 1, 2, 4 and then 5 seconds. In every sequence of
calls at times that do not decrease, the `k`-th failure in a row is followed by no attempt for
`min (1000 * 2 ^ k) 5000` milliseconds and by one at the first call after that, and a success by
none. A call without an attempt leaves the process as it is, and there is none while a worker is
published. -/
theorem initialization_backoff (mcf : MainConf) (bind : Option AddressFamily) (os : Os)
    (envs : List InitEnv) (hclock : (envs.map InitEnv.currentMsec).Pairwise (· ≤ ·)) :
    Law (fun k => min (1000 * 2 ^ k) 5000)
      ((ensureCalls mcf bind { Proc.init with os } envs).map (ensureCall mcf bind)) ∧
    ∀ x ∈ ensureCalls mcf bind { Proc.init with os } envs,
      ((ensureCall mcf bind x).attempted = false → (rnWorkerEnsure mcf bind x.2 x.1).1 = x.1) ∧
      (x.1.worker.isSome = true → (ensureCall mcf bind x).attempted = false) ∧
      ((rnWorkerEnsure mcf bind x.2 x.1).1.worker.isSome = true ↔
        x.1.worker.isSome = true ∨
          (ensureCall mcf bind x).attempted = true ∧ (ensureCall mcf bind x).ok = true) ∧
      (x.2.currentMsec + 5000 < 2 ^ 64 →
        (x.1.initRetryAt ≠ 0 → x.2.currentMsec < x.1.initRetryAt + 2 ^ 63) →
        (retryPending (BitVec.ofNat 64 x.1.initRetryAt) (BitVec.ofNat 64 x.2.currentMsec) = true ↔
          x.1.initRetryAt ≠ 0 ∧ x.2.currentMsec < x.1.initRetryAt)) := by
  have hready : Retries { Proc.init with os } .ready := ⟨rfl, rfl, rfl⟩
  refine ⟨(ensureCalls_follows hready).law (ensureCalls_ordered hclock), fun x hx => ?_⟩
  refine ⟨fun hquiet => ?_, fun hsome => ?_, ?_, fun hnow hbehind => ?_⟩
  · rw [← rnWorkerEnsureTraced_eq]
    exact rnWorkerEnsureTraced_quiet hquiet
  · exact ensureCall_of_worker hsome
  · exact rnWorkerEnsure_published x
  · have hbound := ensureCalls_bounded hclock (fun _ _ => Nat.zero_le _) (Nat.zero_le _) x hx
    exact retryPending_iff (by omega) (by omega) (by omega) hbehind

/-- A call at the given time, in which the C client can be created or not. -/
def initCall (now : ℕ) (clientCreate : Bool) : InitEnv :=
  ⟨true, true, true, sampleSocketEnv, clientCreate, now⟩

/-- Four failures in a row, a success, and calls in the pauses and after it. -/
def retrySequence : List InitEnv :=
  [initCall 0 false, initCall 999 true, initCall 1000 false, initCall 2999 true,
    initCall 3000 false, initCall 6999 true, initCall 7000 false, initCall 11999 true,
    initCall 12000 true, initCall 20000 false]

/-- The attempts are at 0, 1000, 3000, 7000 and 12000 milliseconds. -/
theorem five_attempts :
    ((ensureCalls sampleConfig.main none Proc.init retrySequence).map
      (ensureCall sampleConfig.main none)).filter Call.attempted =
        [⟨0, true, false⟩, ⟨1000, true, false⟩, ⟨3000, true, false⟩, ⟨7000, true, false⟩,
          ⟨12000, true, true⟩] ∧
    Law (fun k => min (1000 * 2 ^ k) 5000)
      ((ensureCalls sampleConfig.main none Proc.init retrySequence).map
        (ensureCall sampleConfig.main none)) := by
  have hlaw := initialization_backoff sampleConfig.main none Proc.init.os retrySequence (by decide)
  exact ⟨by decide +kernel, hlaw.1⟩

end RlNginx
