import RlNginx.Lib.Ledger
import RlNginx.Endpoint

/-!
# The worker's copies of the credentials

`rn_worker_init` copies the tenant name and the key into buffers of their own and points the
client configuration of the worker to them. `r_client_create` reads them during its call, and
`rn_worker_release_config_buffers` releases them behind it, or behind a step that fails before
it : the pointers are cleared, the key is overwritten and both buffers are freed. The worker
record is freed where its initialization fails, and at the exit of the process.

`storage` is the life of a worker (`lifecycle`) with these allocations on a `Ledger`. Beside the
memory it keeps two records for the statements : what the released blocks held when they were
released, and what each call of `r_client_create` could read. `Tidy` is the invariant of its
runs (`credentials_tidy`) : after every step the memory holds the published worker and nothing
else, and no block was released with the key in it. By `key_independent` two processes that
differ in the bytes of the key, and go through the same events, are in the same state with the
same memory.

The buffer of the configuration directive, which every attempt copies from, belongs to the
configuration and is not part of this memory.
-/

open Ledger Transition

namespace RlNginx

/-! ## Blocks -/

/-- `r_client_config_t`, with the blocks its pointers point to. -/
structure ClientCfg where
  dnsName : Option ℕ
  keyId : UInt64
  authType : ℕ
  secret : Option ℕ
  secretLen : ℕ
  requestPolicy : Option ℕ
  deriving DecidableEq, Repr

/-- `rn_worker_ctx_t` : its client configuration, and the policy that points to. -/
structure WorkerRecord where
  clientCfg : ClientCfg
  policy : Option Policy
  deriving DecidableEq, Repr

/-- The record after `ngx_memzero`. -/
def WorkerRecord.zero : WorkerRecord := ⟨⟨none, 0, 0, none, 0, none⟩, none⟩

/-- What a block holds : nothing yet, a worker record, or text. -/
inductive WorkerBlock where
  | raw (size : ℕ)
  | worker (r : WorkerRecord)
  | text (bytes : Bytes)
  deriving DecidableEq, Repr

/-- `ngx_memzero(worker, sizeof(*worker))`. -/
def zeroWorker (workerSize : ℕ) : WorkerBlock → Option WorkerBlock
  | .raw size => if workerSize ≤ size then some (.worker .zero) else none
  | _ => none

/-- Assignments to fields of the worker record. -/
def editWorker (f : WorkerRecord → WorkerRecord) : WorkerBlock → Option WorkerBlock
  | .worker r => some (.worker (f r))
  | _ => none

/-- `ngx_memcpy` of a string, and its NUL. -/
def copyText (bytes : Bytes) : WorkerBlock → Option WorkerBlock
  | .raw size => if bytes.length + 1 ≤ size then some (.text (bytes ++ [0])) else none
  | _ => none

/-- `ngx_explicit_memzero`. -/
def explicitMemzero (len : ℕ) : WorkerBlock → Option WorkerBlock
  | .text bytes =>
    if len ≤ bytes.length then some (.text (List.replicate len 0 ++ bytes.drop len)) else none
  | _ => none

/-! ## The memory -/

/-- What `r_client_create` can read of its configuration. -/
structure ClientView where
  tenant : Option Bytes
  keyId : UInt64
  authType : ℕ
  secret : Option Bytes
  policy : Option Policy
  deriving DecidableEq, Repr

/-- The memory of the worker : its blocks, and `mcf->worker`. `residue` is what the released
blocks held, and `views` what the calls of `r_client_create` could read. -/
structure WorkerMem where
  heap : Ledger WorkerBlock
  worker : Option ℕ
  residue : List WorkerBlock
  views : List (Option ClientView)

namespace WorkerMem

/-- `rn_dns_alloc`, and `ngx_alloc`. -/
def alloc (m : WorkerMem) (x : WorkerBlock) : Option ℕ × WorkerMem :=
  ((m.heap.alloc x).1, { m with heap := (m.heap.alloc x).2 })

/-- A write. -/
def write (m : WorkerMem) (p : ℕ) (f : WorkerBlock → Option WorkerBlock) : WorkerMem :=
  { m with heap := m.heap.write p f }

/-- `ngx_free`. -/
def free (m : WorkerMem) (p : ℕ) : WorkerMem :=
  { m with heap := m.heap.free p, residue := m.residue ++ (m.heap.block p).toList }

/-- The text a pointer leads to. -/
def text (m : WorkerMem) (p : Option ℕ) : Option Bytes :=
  match p.bind m.heap.block with
  | some (.text bytes) => some bytes
  | _ => none

/-- The policy a pointer leads to. -/
def policyAt (m : WorkerMem) (p : Option ℕ) : Option Policy :=
  match p.bind m.heap.block with
  | some (.worker r) => r.policy
  | _ => none

/-- What the client can read of the configuration in the worker `w`. -/
def view (m : WorkerMem) (w : ℕ) : Option ClientView :=
  match m.heap.block w with
  | some (.worker r) => some {
      tenant := m.text r.clientCfg.dnsName
      keyId := r.clientCfg.keyId
      authType := r.clientCfg.authType
      secret := (m.text r.clientCfg.secret).map (List.take r.clientCfg.secretLen)
      policy := m.policyAt r.clientCfg.requestPolicy }
  | _ => none

end WorkerMem

/-! ## Initialization -/

/-- The pointers to the buffers are cleared. -/
def WorkerRecord.cleared (r : WorkerRecord) : WorkerRecord :=
  { r with clientCfg := { r.clientCfg with dnsName := none, secret := none, secretLen := 0 } }

/-- `rn_worker_release_config_buffers`. -/
def rnWorkerReleaseConfigBuffers (w : ℕ) (dns secret : Option ℕ) (secretLen : ℕ)
    (m : WorkerMem) : WorkerMem :=
  let m := m.write w (editWorker WorkerRecord.cleared)
  let m := match secret with
    | none => m
    | some p => (m.write p (explicitMemzero secretLen)).free p
  match dns with
  | none => m
  | some p => m.free p

section Init

variable (workerSize : ℕ) (mcf : MainConf) (bind : Option AddressFamily) (env : InitEnv) (os : Os)

/-- `mcf->tenant_dns`. -/
def tenantBytes : Bytes := mcf.tenantDns.getD []

/-- `mcf->auth_key`, which is empty when it is not set. -/
def keyBytes : Bytes := mcf.authKey.getD []

/-- `mcf->auth_key.len + (secret != NULL ? 1 : 0)`. -/
def secretSize (secret : Option ℕ) : ℕ :=
  (keyBytes mcf).length + if secret.isSome then 1 else 0

/-- What `failed` does in `rn_worker_init`. -/
def workerFailed (w : ℕ) (dns secret : Option ℕ) (m : WorkerMem) : WorkerMem :=
  (rnWorkerReleaseConfigBuffers w dns secret (secretSize mcf secret) m).free w

/-- `worker->policy = mcf->request_policy`, and the pointer to it. -/
def setPolicy (w : ℕ) (r : WorkerRecord) : WorkerRecord :=
  ⟨{ r.clientCfg with requestPolicy := some w }, some mcf.requestPolicy⟩

/-- The tenant of the client configuration. -/
def setTenant (dns : ℕ) (r : WorkerRecord) : WorkerRecord :=
  { r with clientCfg := { r.clientCfg with
    dnsName := some dns
    keyId := mcf.authKeyInfo.keyId
    authType := mcf.authKeyInfo.authType } }

/-- The secret of the client configuration. -/
def setSecret (secret : Option ℕ) (len : ℕ) (r : WorkerRecord) : WorkerRecord :=
  { r with clientCfg := { r.clientCfg with secret, secretLen := len } }

/-- `rn_worker_init` from the policy on : the endpoint, the client, the release of the
buffers. -/
def workerClient (w dns : ℕ) (secret : Option ℕ) (m : WorkerMem) : WorkerMem :=
  let m := m.write w (editWorker (setPolicy mcf w))
  if (rnOpenSocketCandidate bind env.socket os).2.isNone then
    workerFailed mcf w (some dns) secret m
  else
    let m := { m with views := m.views ++ [m.view w] }
    if !env.clientCreate then workerFailed mcf w (some dns) secret m
    else
      let m := rnWorkerReleaseConfigBuffers w (some dns) secret (secretSize mcf secret) m
      { m with worker := some w }

/-- `rn_worker_init` from the secret on. -/
def workerSecret (w dns : ℕ) (m : WorkerMem) : WorkerMem :=
  if (keyBytes mcf).length > 0 then
    match m.alloc (.raw ((keyBytes mcf).length + 1)) with
    | (none, m) => workerFailed mcf w (some dns) none m
    | (some secret, m) =>
      let m := m.write secret (copyText (keyBytes mcf))
      let m := m.write w (editWorker (setSecret (some secret) (keyBytes mcf).length))
      workerClient mcf bind env os w dns (some secret) m
  else
    let m := m.write w (editWorker (setSecret none 0))
    workerClient mcf bind env os w dns none m

/-- `rn_worker_init` from the tenant on. -/
def workerTenant (w : ℕ) (m : WorkerMem) : WorkerMem :=
  match m.alloc (.raw ((tenantBytes mcf).length + 1)) with
  | (none, m) => workerFailed mcf w none none m
  | (some dns, m) =>
    let m := m.write dns (copyText (tenantBytes mcf))
    let m := m.write w (editWorker (setTenant mcf dns))
    workerSecret mcf bind env os w dns m

/-- `rn_worker_init` on the memory. -/
def workerInit (m : WorkerMem) : WorkerMem :=
  match m.alloc (.raw workerSize) with
  | (none, m) => m
  | (some w, m) => workerTenant mcf bind env os w (m.write w (zeroWorker workerSize))

end Init

/-! ## Runs -/

/-- `rn_exit_process` on the memory. -/
def workerExit (m : WorkerMem) : WorkerMem :=
  match m.worker with
  | none => m
  | some w => { m with worker := none }.free w

/-- An event on the memory of the process `p`. -/
def LifeEvent.store (workerSize : ℕ) (mcf : MainConf) (bind : Option AddressFamily) (p : Proc)
    (m : WorkerMem) : LifeEvent → WorkerMem
  | .ensure env =>
    if m.worker.isSome then m
    else if p.initRetryAt ≠ 0 ∧ env.currentMsec < p.initRetryAt then m
    else workerInit workerSize mcf bind env p.os m
  | .rebind _ => m
  | .activity _ => m
  | .exit => workerExit m

/-- The allocations of an attempt to initialize are those of the memory. -/
def LifeEvent.Granted (m : WorkerMem) : LifeEvent → Prop
  | .ensure env =>
    env.allocWorker = m.heap.grants m.heap.calls ∧
      env.allocTenant = m.heap.grants (m.heap.calls + 1) ∧
      env.allocSecret = m.heap.grants (m.heap.calls + 2)
  | _ => True

instance (m : WorkerMem) (e : LifeEvent) : Decidable (e.Granted m) :=
  match e with
  | .ensure _ => inferInstanceAs (Decidable (_ ∧ _ ∧ _))
  | .rebind _ => inferInstanceAs (Decidable True)
  | .activity _ => inferInstanceAs (Decidable True)
  | .exit => inferInstanceAs (Decidable True)

/-- The life of a worker with its memory. -/
def storage (workerSize : ℕ) (mcf : MainConf) (bind : Option AddressFamily) :
    Machine (Proc × WorkerMem) LifeEvent where
  enabled := fun s e => e.Enabled ∧ e.Granted s.2
  next := fun s e => (e.run mcf bind s.1, e.store workerSize mcf bind s.1 s.2)

/-- The memory of a process that has just been started, with an allocator. -/
def WorkerMem.init (grants : ℕ → Bool) : WorkerMem where
  heap := ⟨grants, 0, fun _ => none, [], 0, fun _ _ => rfl⟩
  worker := none
  residue := []
  views := []

/-! ## One attempt -/

section Attempt

variable {L : Ledger WorkerBlock} {m : WorkerMem} {r : WorkerRecord} {t s : Bytes} {ps : List ℕ}
  {rest : List (Option WorkerBlock)}

/-- A write to one of the blocks. -/
theorem write_block {bs : List (Option WorkerBlock)} {i : ℕ} {x y : WorkerBlock}
    {f : WorkerBlock → Option WorkerBlock} (hm : m.heap = (L.logged ps).stack bs)
    (hx : bs[i]? = some (some x)) (hf : f x = some y) : m.write (L.calls + i) f =
      { m with heap := (L.logged ps).stack (bs.set i (some y)) } := by
  rw [WorkerMem.write, hm]
  exact congrArg (WorkerMem.mk · m.worker m.residue m.views)
    (stack_write (L := L.logged ps) hx hf)

/-- The release of one of the blocks. -/
theorem free_block {bs : List (Option WorkerBlock)} {i : ℕ} {x : WorkerBlock}
    (hm : m.heap = (L.logged ps).stack bs) (hx : bs[i]? = some (some x)) :
    m.free (L.calls + i) =
      { m with
        heap := (L.logged (ps ++ [L.calls + i])).stack (bs.set i none)
        residue := m.residue ++ [x] } := by
  have hblock : ((L.logged ps).stack bs).block (L.calls + i) = some x :=
    (stack_block (L.logged ps) bs i).trans (by rw [hx]; rfl)
  have hfree : ((L.logged ps).stack bs).free (L.calls + i) =
      (L.logged (ps ++ [L.calls + i])).stack (bs.set i none) :=
    (stack_free (L := L.logged ps) hx).trans (by rw [logged_calls, logged_logged])
  rw [WorkerMem.free, hm, hfree, hblock]
  rfl

/-- A change to the worker record. -/
theorem write_worker (hm : m.heap = (L.logged ps).stack (some (.worker r) :: rest))
    (f : WorkerRecord → WorkerRecord) : m.write L.calls (editWorker f) =
      { m with heap := (L.logged ps).stack (some (.worker (f r)) :: rest) } :=
  write_block (i := 0) hm rfl rfl

/-- The release of the worker record. -/
theorem free_worker (hm : m.heap = (L.logged ps).stack (some (.worker r) :: rest)) :
    m.free L.calls =
      { m with
        heap := (L.logged (ps ++ [L.calls])).stack (none :: rest)
        residue := m.residue ++ [.worker r] } :=
  free_block (i := 0) hm rfl

/-- No buffer is there yet. -/
theorem release_worker (hm : m.heap = (L.logged ps).stack (some (.worker r) :: rest)) (n : ℕ) :
    rnWorkerReleaseConfigBuffers L.calls none none n m =
      { m with heap := (L.logged ps).stack (some (.worker r.cleared) :: rest) } := by
  simp only [rnWorkerReleaseConfigBuffers, write_worker hm]

/-- The buffer of the tenant is there. -/
theorem release_tenant
    (hm : m.heap = (L.logged ps).stack (some (.worker r) :: some (.text t) :: rest)) (n : ℕ) :
    rnWorkerReleaseConfigBuffers L.calls (some (L.calls + 1)) none n m =
      { m with
        heap := (L.logged (ps ++ [L.calls + 1])).stack (some (.worker r.cleared) :: none :: rest)
        residue := m.residue ++ [.text t] } := by
  simp only [rnWorkerReleaseConfigBuffers, write_worker hm]
  exact (free_block (i := 1) rfl (by rfl)).trans rfl

/-- Both buffers are there : the key is overwritten before its buffer goes. -/
theorem release_both
    (hm : m.heap = (L.logged ps).stack [some (.worker r), some (.text t), some (.text s)]) :
    rnWorkerReleaseConfigBuffers L.calls (some (L.calls + 1)) (some (L.calls + 2)) s.length m =
      { m with
        heap := (L.logged (ps ++ [L.calls + 2, L.calls + 1])).stack
          [some (.worker r.cleared), none, none]
        residue := m.residue ++ [.text (List.replicate s.length 0), .text t] } := by
  have hzero : explicitMemzero s.length (.text s) = some (.text (List.replicate s.length 0)) := by
    simp [explicitMemzero]
  simp only [rnWorkerReleaseConfigBuffers, write_worker hm]
  rw [write_block rfl rfl hzero, free_block (i := 2) rfl rfl]
  refine (free_block (i := 1) rfl (by rfl)).trans ?_
  simp

/-- A further call of the allocator. -/
theorem alloc_block {bs : List (Option WorkerBlock)} (hm : m.heap = (L.logged ps).stack bs)
    (x : WorkerBlock) : m.alloc x =
      if L.grants (L.calls + bs.length) then (some (L.calls + bs.length),
        { m with heap := (L.logged ps).stack (bs ++ [some x]) })
      else (none, { m with heap := (L.logged ps).stack (bs ++ [none]) }) := by
  have halloc := stack_alloc (L.logged ps) bs x
  have hsame : (L.logged ps).grants ((L.logged ps).calls + bs.length) =
      L.grants (L.calls + bs.length) := rfl
  rw [WorkerMem.alloc, hm, halloc, hsame]
  split <;> rfl

end Attempt

/-! ## How an attempt ends -/

/-- Where `rn_worker_init` ends. -/
inductive InitStage where
  | noWorker
  | noTenant
  | noSecret
  | noEndpoint
  | noClient
  | published
  deriving DecidableEq, Repr

section Ends

variable (mcf : MainConf)

/-- The tenant with its NUL. -/
def tenantText : Bytes := tenantBytes mcf ++ [0]

/-- The stage an attempt reaches. -/
def initStage (bind : Option AddressFamily) (env : InitEnv) (os : Os) : InitStage :=
  if !env.allocWorker then .noWorker
  else if !env.allocTenant then .noTenant
  else if (keyBytes mcf).length > 0 && !env.allocSecret then .noSecret
  else if (rnOpenSocketCandidate bind env.socket os).2.isNone then .noEndpoint
  else if !env.clientCreate then .noClient
  else .published

/-- The worker record without pointers to the buffers, and with the policy if that is set. -/
def clearedRecord (policy : Option ℕ) : WorkerRecord where
  clientCfg := ⟨none, mcf.authKeyInfo.keyId, mcf.authKeyInfo.authType, none, 0, policy⟩
  policy := policy.map fun _ => mcf.requestPolicy

/-- What the client is to read. -/
def credentials : ClientView where
  tenant := some (tenantText mcf)
  keyId := mcf.authKeyInfo.keyId
  authType := mcf.authKeyInfo.authType
  secret := if (keyBytes mcf).length > 0 then some (keyBytes mcf) else none
  policy := some mcf.requestPolicy

/-- The buffers behind the worker record `w`, in the order of their release. -/
def bufferBlocks (w : ℕ) : List ℕ :=
  if (keyBytes mcf).length > 0 then [w + 2, w + 1] else [w + 1]

/-- What they hold at their release. -/
def bufferResidue : List WorkerBlock :=
  if (keyBytes mcf).length > 0 then
    [.text (List.replicate ((keyBytes mcf).length + 1) 0), .text (tenantText mcf)]
  else [.text (tenantText mcf)]

/-- What an attempt leaves that ends at a stage. -/
def InitStage.leaves (m : WorkerMem) : InitStage → WorkerMem
  | .noWorker => { m with heap := m.heap.stack [none] }
  | .noTenant => { m with
      heap := (m.heap.logged [m.heap.calls]).stack [none, none]
      residue := m.residue ++ [.worker .zero] }
  | .noSecret => { m with
      heap := (m.heap.logged [m.heap.calls + 1, m.heap.calls]).stack [none, none, none]
      residue := m.residue ++ [.text (tenantText mcf), .worker (clearedRecord mcf none)] }
  | .noEndpoint => { m with
      heap := (m.heap.logged (bufferBlocks mcf m.heap.calls ++ [m.heap.calls])).stack
        (none :: (bufferBlocks mcf m.heap.calls).map fun _ => none)
      residue := m.residue ++ (bufferResidue mcf ++
        [.worker (clearedRecord mcf (some m.heap.calls))]) }
  | .noClient => { m with
      heap := (m.heap.logged (bufferBlocks mcf m.heap.calls ++ [m.heap.calls])).stack
        (none :: (bufferBlocks mcf m.heap.calls).map fun _ => none)
      residue := m.residue ++ (bufferResidue mcf ++
        [.worker (clearedRecord mcf (some m.heap.calls))])
      views := m.views ++ [some (credentials mcf)] }
  | .published => {
      heap := (m.heap.logged (bufferBlocks mcf m.heap.calls)).stack
        (some (.worker (clearedRecord mcf (some m.heap.calls))) ::
          (bufferBlocks mcf m.heap.calls).map fun _ => none)
      worker := some m.heap.calls
      residue := m.residue ++ bufferResidue mcf
      views := m.views ++ [some (credentials mcf)] }

end Ends

section Stages

variable {mcf : MainConf} {bind : Option AddressFamily} {env : InitEnv} {os : Os}
  {L : Ledger WorkerBlock} {m : WorkerMem} {r : WorkerRecord}

/-- The block of the key. -/
def secretBlock (mcf : MainConf) (w : ℕ) : Option ℕ :=
  if (keyBytes mcf).length > 0 then some (w + 2) else none

/-- The buffers when they are filled. -/
def filledBuffers (mcf : MainConf) : List (Option WorkerBlock) :=
  if (keyBytes mcf).length > 0 then
    [some (.text (tenantText mcf)), some (.text (keyBytes mcf ++ [0]))]
  else [some (.text (tenantText mcf))]

/-- The record when they are. -/
def filledRecord (mcf : MainConf) (w : ℕ) : WorkerRecord :=
  setSecret (secretBlock mcf w) (keyBytes mcf).length (setTenant mcf (w + 1) .zero)

/-- Filled buffers are released. -/
theorem release_filled (hm : m.heap = (L.logged []).stack (some (.worker r) :: filledBuffers mcf)) :
    rnWorkerReleaseConfigBuffers L.calls (some (L.calls + 1)) (secretBlock mcf L.calls)
        (secretSize mcf (secretBlock mcf L.calls)) m =
      { m with
        heap := (L.logged (bufferBlocks mcf L.calls)).stack
          (some (.worker r.cleared) :: (bufferBlocks mcf L.calls).map fun _ => none)
        residue := m.residue ++ bufferResidue mcf } := by
  by_cases hkey : (keyBytes mcf).length > 0
  · simp only [filledBuffers, secretBlock, bufferBlocks, bufferResidue, if_pos hkey] at hm ⊢
    have hsize : secretSize mcf (some (L.calls + 2)) = (keyBytes mcf ++ [0]).length := by
      simp [secretSize]
    rw [hsize, release_both hm, List.length_append]
    rfl
  · simp only [filledBuffers, secretBlock, bufferBlocks, bufferResidue, if_neg hkey] at hm ⊢
    exact release_tenant hm _

/-- A failure behind them. -/
theorem failed_filled (hm : m.heap = (L.logged []).stack (some (.worker r) :: filledBuffers mcf)) :
    workerFailed mcf L.calls (some (L.calls + 1)) (secretBlock mcf L.calls) m =
      { m with
        heap := (L.logged (bufferBlocks mcf L.calls ++ [L.calls])).stack
          (none :: (bufferBlocks mcf L.calls).map fun _ => none)
        residue := m.residue ++ (bufferResidue mcf ++ [.worker r.cleared]) } := by
  rw [workerFailed, release_filled hm]
  refine (free_worker rfl).trans ?_
  rw [List.append_assoc]

/-- The client reads the credentials. -/
theorem view_filled (hm : m.heap = (L.logged []).stack
    (some (.worker (setPolicy mcf L.calls (filledRecord mcf L.calls))) :: filledBuffers mcf)) :
    m.view L.calls = some (credentials mcf) := by
  have hblock : ∀ i, m.heap.block (L.calls + i) =
      (some (.worker (setPolicy mcf L.calls (filledRecord mcf L.calls))) ::
        filledBuffers mcf)[i]?.join := by
    intro i
    rw [hm]
    exact stack_block (L.logged []) _ i
  have hworker : m.heap.block L.calls = _ := hblock 0
  have htenant := hblock 1
  have hsecret := hblock 2
  by_cases hkey : (keyBytes mcf).length > 0
  · simp only [filledBuffers, if_pos hkey] at htenant hsecret
    simp [WorkerMem.view, hworker, filledRecord, setPolicy, setSecret, setTenant, WorkerMem.text,
      WorkerMem.policyAt, htenant, hsecret, secretBlock, credentials, hkey]
  · simp only [filledBuffers, if_neg hkey] at htenant
    simp [WorkerMem.view, hworker, filledRecord, setPolicy, setSecret, setTenant, WorkerMem.text,
      WorkerMem.policyAt, htenant, secretBlock, credentials, hkey]

/-- An attempt from its filled buffers on. -/
theorem workerClient_eq (hm : m.heap =
    (L.logged []).stack (some (.worker (filledRecord mcf L.calls)) :: filledBuffers mcf)) :
    workerClient mcf bind env os L.calls (L.calls + 1) (secretBlock mcf L.calls) m =
      if (rnOpenSocketCandidate bind env.socket os).2.isNone then
        { m with
          heap := (L.logged (bufferBlocks mcf L.calls ++ [L.calls])).stack
            (none :: (bufferBlocks mcf L.calls).map fun _ => none)
          residue := m.residue ++ (bufferResidue mcf ++
            [.worker (clearedRecord mcf (some L.calls))]) }
      else if !env.clientCreate then
        { m with
          heap := (L.logged (bufferBlocks mcf L.calls ++ [L.calls])).stack
            (none :: (bufferBlocks mcf L.calls).map fun _ => none)
          residue := m.residue ++ (bufferResidue mcf ++
            [.worker (clearedRecord mcf (some L.calls))])
          views := m.views ++ [some (credentials mcf)] }
      else {
        heap := (L.logged (bufferBlocks mcf L.calls)).stack
          (some (.worker (clearedRecord mcf (some L.calls))) ::
            (bufferBlocks mcf L.calls).map fun _ => none)
        worker := some L.calls
        residue := m.residue ++ bufferResidue mcf
        views := m.views ++ [some (credentials mcf)] } := by
  have hset : (m.write L.calls (editWorker (setPolicy mcf L.calls))).heap = (L.logged []).stack
      (some (.worker (setPolicy mcf L.calls (filledRecord mcf L.calls))) :: filledBuffers mcf) :=
    congrArg WorkerMem.heap (write_worker hm _)
  have hread : ({ m.write L.calls (editWorker (setPolicy mcf L.calls)) with
      views := m.views ++ [some (credentials mcf)] } : WorkerMem).heap = (L.logged []).stack
        (some (.worker (setPolicy mcf L.calls (filledRecord mcf L.calls))) :: filledBuffers mcf) :=
    hset
  simp only [workerClient, view_filled hset]
  split_ifs
  · exact failed_filled hset
  · exact failed_filled hread
  · have hrelease := release_filled hread
    exact congrArg (fun m : WorkerMem => { m with worker := some L.calls }) hrelease

/-- A buffer is filled. -/
theorem copyText_eq (bytes : Bytes) :
    copyText bytes (.raw (bytes.length + 1)) = some (.text (bytes ++ [0])) :=
  if_pos (Nat.le_refl _)

/-- An attempt without a buffer for the key. -/
theorem failed_tenant {t : Bytes} {rest : List (Option WorkerBlock)}
    (hm : m.heap = (L.logged []).stack (some (.worker r) :: some (.text t) :: rest)) :
    workerFailed mcf L.calls (some (L.calls + 1)) none m =
      { m with
        heap := (L.logged [L.calls + 1, L.calls]).stack (none :: none :: rest)
        residue := m.residue ++ [.text t, .worker r.cleared] } := by
  rw [workerFailed, release_tenant hm]
  refine (free_worker rfl).trans ?_
  simp

/-- The buffer of the tenant is filled, and the record points to it. -/
def TenantFilled (mcf : MainConf) (L : Ledger WorkerBlock) (m : WorkerMem) : Prop :=
  m.heap = (L.logged []).stack
    [some (.worker (setTenant mcf (L.calls + 1) .zero)), some (.text (tenantText mcf))]

/-- There is no buffer for the key. -/
theorem workerSecret_refused (hm : TenantFilled mcf L m) (hkey : (keyBytes mcf).length > 0)
    (hgrant : L.grants (L.calls + 2) = false) :
    workerSecret mcf bind env os L.calls (L.calls + 1) m =
      { m with
        heap := (L.logged [L.calls + 1, L.calls]).stack [none, none, none]
        residue := m.residue ++ [.text (tenantText mcf), .worker (clearedRecord mcf none)] } := by
  have halloc : m.alloc (.raw ((keyBytes mcf).length + 1)) = _ :=
    (alloc_block hm _).trans (if_neg (by simp [hgrant]))
  simp only [workerSecret, if_pos hkey, halloc]
  exact failed_tenant (L := L) (r := setTenant mcf (L.calls + 1) .zero) rfl

/-- There is one, and it is filled. -/
theorem workerSecret_granted (hm : TenantFilled mcf L m) (hkey : (keyBytes mcf).length > 0)
    (hgrant : L.grants (L.calls + 2) = true) :
    workerSecret mcf bind env os L.calls (L.calls + 1) m =
      workerClient mcf bind env os L.calls (L.calls + 1) (secretBlock mcf L.calls)
        { m with
          heap := (L.logged []).stack
            (some (.worker (filledRecord mcf L.calls)) :: filledBuffers mcf) } := by
  have halloc : m.alloc (.raw ((keyBytes mcf).length + 1)) = _ :=
    (alloc_block hm _).trans (if_pos hgrant)
  simp only [workerSecret, if_pos hkey, halloc, filledBuffers, secretBlock, filledRecord]
  refine congrArg _ ?_
  refine (congrArg (WorkerMem.write · _ _)
    (write_block (i := 2) (by rfl) (by rfl) (copyText_eq (keyBytes mcf)))).trans ?_
  exact write_worker (by rfl) _

/-- There is no key. -/
theorem workerSecret_plain (hm : TenantFilled mcf L m) (hkey : ¬(keyBytes mcf).length > 0) :
    workerSecret mcf bind env os L.calls (L.calls + 1) m =
      workerClient mcf bind env os L.calls (L.calls + 1) (secretBlock mcf L.calls)
        { m with
          heap := (L.logged []).stack
            (some (.worker (filledRecord mcf L.calls)) :: filledBuffers mcf) } := by
  have hlen : (keyBytes mcf).length = 0 := by omega
  simp only [workerSecret, filledBuffers, secretBlock, filledRecord, if_neg hkey]
  rw [write_worker hm, hlen]

/-- The stages behind the buffers. -/
theorem workerClient_leaves (hheap : m.heap = L) :
    workerClient mcf bind env os L.calls (L.calls + 1) (secretBlock mcf L.calls)
        { m with
          heap := (L.logged []).stack
            (some (.worker (filledRecord mcf L.calls)) :: filledBuffers mcf) } =
      (if (rnOpenSocketCandidate bind env.socket os).2.isNone then InitStage.noEndpoint
        else if !env.clientCreate then .noClient else .published).leaves mcf m := by
  subst hheap
  rw [workerClient_eq rfl]
  split_ifs <;> rfl

/-- The worker record is there, without a buffer for the tenant. -/
theorem workerTenant_refused (hm : m.heap = (L.logged []).stack [some (.worker .zero)])
    (hgrant : L.grants (L.calls + 1) = false) :
    workerTenant mcf bind env os L.calls m =
      { m with
        heap := (L.logged [L.calls]).stack [none, none]
        residue := m.residue ++ [.worker .zero] } := by
  have halloc : m.alloc (.raw ((tenantBytes mcf).length + 1)) = _ :=
    (alloc_block hm _).trans (if_neg (by simp [hgrant]))
  simp only [workerTenant, halloc, workerFailed]
  rw [release_worker (r := .zero) rfl]
  refine (free_worker (by rfl)).trans ?_
  rfl

/-- The buffer of the tenant is there too. -/
theorem workerTenant_granted (hm : m.heap = (L.logged []).stack [some (.worker .zero)])
    (hgrant : L.grants (L.calls + 1) = true) :
    workerTenant mcf bind env os L.calls m =
      workerSecret mcf bind env os L.calls (L.calls + 1)
        { m with
          heap := (L.logged []).stack [some (.worker (setTenant mcf (L.calls + 1) .zero)),
            some (.text (tenantText mcf))] } := by
  have halloc : m.alloc (.raw ((tenantBytes mcf).length + 1)) = _ :=
    (alloc_block hm _).trans (if_pos hgrant)
  simp only [workerTenant, halloc]
  refine congrArg _ ?_
  refine (congrArg (WorkerMem.write · _ _)
    (write_block (i := 1) (by rfl) (by rfl) (copyText_eq (tenantBytes mcf)))).trans ?_
  exact write_worker (by rfl) _

/-- The worker record is zeroed. -/
theorem workerInit_granted {workerSize : ℕ} (hm : m.heap = L)
    (hgrant : L.grants L.calls = true) :
    workerInit workerSize mcf bind env os m =
      workerTenant mcf bind env os L.calls
        { m with heap := (L.logged []).stack [some (.worker .zero)] } := by
  have hstart : m.heap = (L.logged []).stack [] := hm.trans (logged_nil L).symm
  have halloc : m.alloc (.raw workerSize) = _ :=
    (alloc_block hstart _).trans (if_pos hgrant)
  have hzero : zeroWorker workerSize (.raw workerSize) = some (.worker .zero) :=
    if_pos (Nat.le_refl _)
  simp only [workerInit, halloc]
  refine congrArg _ ?_
  refine (write_block (L := L) (i := 0) (by rfl) (by rfl) hzero).trans ?_
  rfl

/-- What an attempt to initialize leaves. -/
theorem workerInit_leaves {workerSize : ℕ} (h : (LifeEvent.ensure env).Granted m) :
    workerInit workerSize mcf bind env os m = (initStage mcf bind env os).leaves mcf m := by
  obtain ⟨hworker, htenant, hsecret⟩ := h
  generalize hL : m.heap = L at hworker htenant hsecret
  rw [initStage, hworker, htenant, hsecret]
  cases hw : L.grants L.calls with
  | false =>
    have halloc : m.alloc (.raw workerSize) = (none, { m with heap := L.stack [none] }) := by
      rw [WorkerMem.alloc, hL, alloc_of_not_grants hw]
      rfl
    simp only [workerInit, halloc, InitStage.leaves, hL, Bool.not_false, if_true]
  | true =>
    rw [workerInit_granted hL hw]
    cases ht : L.grants (L.calls + 1) with
    | false =>
      rw [workerTenant_refused rfl ht]
      simp [InitStage.leaves, hL]
    | true =>
      have hfilled : TenantFilled mcf L { m with
          heap := (L.logged []).stack [some (.worker (setTenant mcf (L.calls + 1) .zero)),
            some (.text (tenantText mcf))] } := rfl
      rw [workerTenant_granted rfl ht]
      by_cases hkey : (keyBytes mcf).length > 0
      · cases hs : L.grants (L.calls + 2) with
        | false =>
          rw [workerSecret_refused hfilled hkey hs]
          simp [InitStage.leaves, hL, hkey]
        | true =>
          rw [workerSecret_granted hfilled hkey hs]
          refine (workerClient_leaves hL).trans ?_
          simp
      · rw [workerSecret_plain hfilled hkey]
        refine (workerClient_leaves hL).trans ?_
        simp [hkey]

end Stages

/-! ## Every block accounted for -/

section Accounts

variable {mcf : MainConf} {bind : Option AddressFamily} {env : InitEnv} {os : Os} {m : WorkerMem}

theorem alloc_accounted {x : WorkerBlock} {p : Option ℕ} {m' : WorkerMem}
    (h : m.heap.Accounted) (hcall : m.alloc x = (p, m')) : m'.heap.Accounted := by
  rw [WorkerMem.alloc, Prod.mk.injEq] at hcall
  exact hcall.2 ▸ h.alloc x

theorem release_accounted (h : m.heap.Accounted) (w : ℕ) (dns secret : Option ℕ) (n : ℕ) :
    (rnWorkerReleaseConfigBuffers w dns secret n m).heap.Accounted := by
  cases secret <;> cases dns
  · exact h.write _ _
  · exact (h.write _ _).free _
  · exact ((h.write _ _).write _ _).free _
  · exact (((h.write _ _).write _ _).free _).free _

theorem failed_accounted (h : m.heap.Accounted) (w : ℕ) (dns secret : Option ℕ) :
    (workerFailed mcf w dns secret m).heap.Accounted :=
  (release_accounted h w dns secret _).free w

theorem client_accounted (h : m.heap.Accounted) (w dns : ℕ) (secret : Option ℕ) :
    (workerClient mcf bind env os w dns secret m).heap.Accounted := by
  have hset := h.write w (editWorker (setPolicy mcf w))
  simp only [workerClient]
  split_ifs
  · exact failed_accounted hset w _ _
  · exact failed_accounted hset w _ _
  · exact release_accounted hset w _ _ _

theorem secret_accounted (h : m.heap.Accounted) (w dns : ℕ) :
    (workerSecret mcf bind env os w dns m).heap.Accounted := by
  simp only [workerSecret]
  split_ifs
  · split
    next hcall => exact failed_accounted (alloc_accounted h hcall) w _ _
    next hcall =>
      exact client_accounted (((alloc_accounted h hcall).write _ _).write _ _) w dns _
  · exact client_accounted (h.write _ _) w dns _

theorem tenant_accounted (h : m.heap.Accounted) (w : ℕ) :
    (workerTenant mcf bind env os w m).heap.Accounted := by
  simp only [workerTenant]
  split
  next hcall => exact failed_accounted (alloc_accounted h hcall) w _ _
  next hcall => exact secret_accounted (((alloc_accounted h hcall).write _ _).write _ _) w _

theorem workerInit_accounted (h : m.heap.Accounted) (workerSize : ℕ) :
    (workerInit workerSize mcf bind env os m).heap.Accounted := by
  simp only [workerInit]
  split
  next hcall => exact alloc_accounted h hcall
  next hcall => exact tenant_accounted ((alloc_accounted h hcall).write _ _) _

theorem workerExit_accounted (h : m.heap.Accounted) : (workerExit m).heap.Accounted := by
  unfold workerExit
  split
  · exact h
  · exact h.free _

end Accounts

/-! ## Agreement with the worker -/

/-- Whether a candidate opens does not depend on what is open. -/
theorem candidate_isNone (bind : Option AddressFamily) (env : SocketEnv) (os os' : Os) :
    (rnOpenSocketCandidate bind env os).2.isNone =
      (rnOpenSocketCandidate bind env os').2.isNone := by
  unfold rnOpenSocketCandidate configureSocket
  split
  all_goals split_ifs <;> rfl

/-- An attempt publishes a worker exactly when it reaches the last stage. -/
theorem rnWorkerInit_stage (mcf : MainConf) (bind : Option AddressFamily) (env : InitEnv)
    (os : Os) : (rnWorkerInit mcf bind env os).2.isSome =
      decide (initStage mcf bind env os = .published) := by
  have hendpoint : ∀ (os' : Os) (n : ℕ), (initEndpoint bind env os' n).2.isSome =
      decide ((if (rnOpenSocketCandidate bind env.socket os).2.isNone then InitStage.noEndpoint
        else if !env.clientCreate then .noClient else .published) = .published) := by
    intro os' n
    rw [candidate_isNone bind env.socket os os']
    unfold initEndpoint
    rcases hopen : rnOpenSocketCandidate bind env.socket os' with ⟨os'', u | u⟩
    · rfl
    · cases hcreate : env.clientCreate <;> rfl
  have hkey : (mcf.authKey.getD [] = []) = ¬(keyBytes mcf).length > 0 := by
    simp [keyBytes]
  unfold rnWorkerInit initStage
  simp only [hkey]
  by_cases hlen : (keyBytes mcf).length > 0
  all_goals simp only [hlen, not_true, not_false_eq_true, if_true, if_false, decide_true,
    decide_false, Bool.true_and, Bool.false_and, Bool.false_eq_true]
  all_goals
    split_ifs
    all_goals first | rfl | exact (hendpoint _ _).trans (by simp [*])

/-- An initialization reads of the key whether it is there. -/
theorem rnWorkerInit_congr {mcf mcf' : MainConf}
    (h : (keyBytes mcf').length = (keyBytes mcf).length) (bind : Option AddressFamily)
    (env : InitEnv) (os : Os) : rnWorkerInit mcf' bind env os = rnWorkerInit mcf bind env os := by
  have hkey : (mcf'.authKey.getD [] = []) = (mcf.authKey.getD [] = []) := by
    rw [← List.length_eq_zero_iff, ← List.length_eq_zero_iff]
    exact congrArg (· = 0) h
  unfold rnWorkerInit
  simp only [hkey]

/-! ## The invariant -/

/-- A released block that tells nothing of the key : a worker record without pointers to the
buffers, the tenant, or zeros. -/
def Harmless (mcf : MainConf) (b : WorkerBlock) : Prop :=
  (∃ r : WorkerRecord, b = .worker r ∧ r.clientCfg.dnsName = none ∧ r.clientCfg.secret = none ∧
    r.clientCfg.secretLen = 0) ∨
  b = .text (tenantText mcf) ∨ ∃ n, b = .text (List.replicate n 0)

/-- The memory of a process holds the published worker, without pointers to released buffers, and
nothing else. No block was used or released a second time behind its release, no released block
held the key, and each client was created from the whole credentials. -/
structure Tidy (mcf : MainConf) (p : Proc) (m : WorkerMem) : Prop where
  faults : m.heap.faults = 0
  accounted : m.heap.Accounted
  live : ∀ b x, m.heap.block b = some x ↔
    m.worker = some b ∧ x = .worker (clearedRecord mcf (some b))
  published : m.worker.isSome = p.worker.isSome
  residue : ∀ b ∈ m.residue, Harmless mcf b
  views : ∀ v ∈ m.views, v = some (credentials mcf)

section Steps

variable {workerSize : ℕ} {mcf : MainConf} {bind : Option AddressFamily} {p : Proc}
  {m : WorkerMem} {env : InitEnv} {os : Os}

/-- The blocks behind an empty memory. -/
theorem stack_of_empty {L : Ledger WorkerBlock} (h : ∀ q, L.block q = none) (ps : List ℕ)
    (bs : List (Option WorkerBlock)) (q : ℕ) (x : WorkerBlock) :
    ((L.logged ps).stack bs).block q = some x ↔ ∃ i, q = L.calls + i ∧ bs[i]? = some (some x) := by
  rcases Nat.lt_or_ge q L.calls with hlt | hle
  · rw [stack_block_of_lt (L := L.logged ps) bs hlt]
    refine iff_of_false (fun hq => ?_) fun ⟨i, hi, _⟩ => by omega
    exact absurd ((h q).symm.trans hq) (by simp)
  · obtain ⟨i, rfl⟩ := Nat.exists_eq_add_of_le hle
    have hblock : ((L.logged ps).stack bs).block (L.calls + i) = bs[i]?.join :=
      stack_block (L.logged ps) bs i
    rw [hblock, Option.join_eq_some_iff]
    refine ⟨fun hx => ⟨i, rfl, hx⟩, fun ⟨j, hj, hx⟩ => ?_⟩
    obtain rfl : i = j := by omega
    exact hx

theorem harmless_buffers {b : WorkerBlock} (h : b ∈ bufferResidue mcf) : Harmless mcf b := by
  unfold bufferResidue at h
  split_ifs at h
  · rcases List.mem_cons.mp h with rfl | h
    · exact .inr (.inr ⟨_, rfl⟩)
    · exact .inr (.inl (List.mem_singleton.mp h))
  · exact .inr (.inl (List.mem_singleton.mp h))

theorem harmless_cleared (policy : Option ℕ) :
    Harmless mcf (.worker (clearedRecord mcf policy)) :=
  .inl ⟨_, rfl, rfl, rfl, rfl⟩

/-- A record of what was released grows by harmless blocks. -/
theorem residue_append {bs bs' : List WorkerBlock} (h : ∀ b ∈ bs, Harmless mcf b)
    (h' : ∀ b ∈ bs', Harmless mcf b) : ∀ b ∈ bs ++ bs', Harmless mcf b :=
  fun b hb => (List.mem_append.mp hb).elim (h b) (h' b)

theorem harmless_failed (policy : Option ℕ) :
    ∀ b ∈ bufferResidue mcf ++ [.worker (clearedRecord mcf policy)], Harmless mcf b :=
  residue_append (fun _ hb => harmless_buffers hb)
    fun _ hb => List.mem_singleton.mp hb ▸ harmless_cleared policy

/-- What a stage adds to the records. -/
theorem leaves_records (stage : InitStage) (hresidue : ∀ b ∈ m.residue, Harmless mcf b)
    (hviews : ∀ v ∈ m.views, v = some (credentials mcf)) :
    (∀ b ∈ (stage.leaves mcf m).residue, Harmless mcf b) ∧
      ∀ v ∈ (stage.leaves mcf m).views, v = some (credentials mcf) := by
  have hread : ∀ v ∈ m.views ++ [some (credentials mcf)], v = some (credentials mcf) :=
    fun v hv => (List.mem_append.mp hv).elim (hviews v) List.mem_singleton.mp
  cases stage with
  | noWorker => exact ⟨hresidue, hviews⟩
  | noTenant =>
    refine ⟨residue_append hresidue fun b hb => ?_, hviews⟩
    obtain rfl := List.mem_singleton.mp hb
    exact .inl ⟨_, rfl, rfl, rfl, rfl⟩
  | noSecret =>
    refine ⟨residue_append hresidue fun b hb => ?_, hviews⟩
    rcases List.mem_cons.mp hb with rfl | hb
    · exact .inr (.inl rfl)
    · exact List.mem_singleton.mp hb ▸ harmless_cleared none
  | noEndpoint => exact ⟨residue_append hresidue (harmless_failed _), hviews⟩
  | noClient => exact ⟨residue_append hresidue (harmless_failed _), hread⟩
  | published => exact ⟨residue_append hresidue fun _ hb => harmless_buffers hb, hread⟩

/-- What a stage leaves in an empty memory. -/
theorem leaves_live (stage : InitStage) (hworker : m.worker = none)
    (hempty : ∀ q, m.heap.block q = none) (q : ℕ) (x : WorkerBlock) :
    (stage.leaves mcf m).heap.block q = some x ↔
      (stage.leaves mcf m).worker = some q ∧ x = .worker (clearedRecord mcf (some q)) := by
  have hnone : ∀ ps (bs : List (Option WorkerBlock)), (∀ b ∈ bs, b = none) →
      (((m.heap.logged ps).stack bs).block q = some x ↔
        m.worker = some q ∧ x = .worker (clearedRecord mcf (some q))) := by
    intro ps bs hbs
    rw [stack_of_empty hempty, hworker]
    refine iff_of_false ?_ (by simp)
    rintro ⟨i, -, hi⟩
    exact absurd (hbs _ (List.mem_of_getElem? hi)) (by simp)
  have htail : ∀ b ∈ (bufferBlocks mcf m.heap.calls).map fun _ => (none : Option WorkerBlock),
      b = none := by simp
  have hfailed : ∀ b ∈ none :: (bufferBlocks mcf m.heap.calls).map
      fun _ => (none : Option WorkerBlock), b = none :=
    fun b hb => (List.mem_cons.mp hb).elim id (htail b)
  cases stage with
  | noWorker =>
    have hstack := hnone [] [none] (by simp)
    rw [logged_nil] at hstack
    exact hstack
  | noTenant => exact hnone _ _ (by simp)
  | noSecret => exact hnone _ _ (by simp)
  | noEndpoint => exact hnone _ _ hfailed
  | noClient => exact hnone _ _ hfailed
  | published =>
    change ((m.heap.logged _).stack _).block q = some x ↔ some m.heap.calls = some q ∧ _
    rw [stack_of_empty hempty]
    constructor
    · rintro ⟨i, rfl, hi⟩
      cases i with
      | zero =>
        obtain rfl := Option.some.inj (Option.some.inj hi)
        exact ⟨rfl, rfl⟩
      | succ i => exact absurd (htail _ (List.mem_of_getElem? hi)) (by simp)
    · rintro ⟨hq, rfl⟩
      obtain rfl := Option.some.inj hq
      exact ⟨0, rfl, rfl⟩

theorem leaves_faults (stage : InitStage) : (stage.leaves mcf m).heap.faults = m.heap.faults := by
  cases stage <;> exact stack_faults _ _

theorem leaves_worker (stage : InitStage) (hworker : m.worker = none) :
    (stage.leaves mcf m).worker.isSome = decide (stage = .published) := by
  cases stage <;> simp [InitStage.leaves, hworker]

/-- An attempt that is made. -/
theorem workerInit_tidy (h : Tidy mcf p m) (hworker : p.worker = none)
    (hgranted : (LifeEvent.ensure env).Granted m) {p' : Proc}
    (hp' : p'.worker.isSome = (rnWorkerInit mcf bind env os).2.isSome) :
    Tidy mcf p' (workerInit workerSize mcf bind env os m) := by
  have hnone : m.worker = none := by
    have hpublished := h.published
    rw [hworker] at hpublished
    simpa using hpublished
  have hempty : ∀ q, m.heap.block q = none := by
    intro q
    refine Option.eq_none_iff_forall_ne_some.mpr fun x hx => ?_
    rw [h.live, hnone] at hx
    exact absurd hx.1 (by simp)
  have haccounted : (workerInit workerSize mcf bind env os m).heap.Accounted :=
    workerInit_accounted h.accounted workerSize
  have hleaves : workerInit workerSize mcf bind env os m = _ := workerInit_leaves hgranted
  rw [hleaves] at haccounted ⊢
  obtain ⟨hresidue, hviews⟩ := leaves_records (initStage mcf bind env os) h.residue h.views
  refine ⟨(leaves_faults _).trans h.faults, haccounted, leaves_live _ hnone hempty, ?_,
    hresidue, hviews⟩
  rw [leaves_worker _ hnone, hp', rnWorkerInit_stage]

/-- The worker record goes at the exit. -/
theorem workerExit_tidy (h : Tidy mcf p m) : Tidy mcf (rnExitProcess p) (workerExit m) := by
  have hgone : (rnExitProcess p).worker.isSome = false := by
    unfold rnExitProcess
    split
    next hnone => rw [hnone]; rfl
    next => rfl
  have haccounted := workerExit_accounted h.accounted
  cases hw : m.worker with
  | none =>
    have hsame : workerExit m = m := by rw [workerExit, hw]
    rw [hsame]
    refine ⟨h.faults, h.accounted, h.live, ?_, h.residue, h.views⟩
    rw [hgone, hw]
    rfl
  | some w =>
    have hblock : m.heap.block w = some (.worker (clearedRecord mcf (some w))) :=
      (h.live w _).mpr ⟨hw, rfl⟩
    have hexit : workerExit m = { m with
        heap := { m.heap.put w none with freed := m.heap.freed ++ [w] }
        worker := none
        residue := m.residue ++ [.worker (clearedRecord mcf (some w))] } := by
      simp only [workerExit, hw, WorkerMem.free, hblock, free_eq hblock]
      rfl
    rw [hexit] at haccounted ⊢
    refine ⟨h.faults, haccounted, fun q x => ?_, hgone.symm, ?_, h.views⟩
    · refine iff_of_false (fun hx => ?_) (by simp)
      replace hx : (m.heap.put w none).block q = some x := hx
      by_cases hq : q = w
      · rw [hq, put_block_self hblock] at hx
        cases hx
      · rw [put_block_of_ne hq, h.live, hw] at hx
        exact hq (Option.some.inj hx.1).symm
    · exact residue_append h.residue fun b hb =>
        List.mem_singleton.mp hb ▸ harmless_cleared (some w)

/-- Every event keeps the memory tidy. -/
theorem store_tidy {e : LifeEvent} (h : Tidy mcf p m) (he : e.Granted m) :
    Tidy mcf (e.run mcf bind p) (e.store workerSize mcf bind p m) := by
  have hkeep : ∀ p' : Proc, p'.worker.isSome = p.worker.isSome → Tidy mcf p' m :=
    fun p' hp' => ⟨h.faults, h.accounted, h.live, h.published.trans hp'.symm, h.residue, h.views⟩
  cases e with
  | ensure env =>
    simp only [LifeEvent.run, LifeEvent.store, h.published, rnWorkerEnsure]
    by_cases hsome : p.worker.isSome = true
    · rw [if_pos hsome, if_pos hsome]
      exact h
    rw [if_neg hsome, if_neg hsome]
    by_cases hwait : p.initRetryAt ≠ 0 ∧ env.currentMsec < p.initRetryAt
    · rw [if_pos hwait, if_pos hwait]
      exact h
    rw [if_neg hwait, if_neg hwait]
    have hnone : p.worker = none := by simpa using hsome
    refine workerInit_tidy h hnone he ?_
    rcases hinit : rnWorkerInit mcf bind env p.os with ⟨os, v | v⟩
    · exact congrArg Option.isSome hnone
    · rfl
  | rebind env =>
    refine hkeep _ ?_
    change (p.rebind bind env).worker.isSome = _
    unfold Proc.rebind
    split
    next hnone => rfl
    next w hw => rw [hw]; rfl
  | activity f => exact hkeep _ Option.isSome_map
  | exit => exact workerExit_tidy h

end Steps

/-- A process that has just been started. -/
theorem init_tidy (mcf : MainConf) (grants : ℕ → Bool) :
    Tidy mcf Proc.init (WorkerMem.init grants) where
  faults := rfl
  accounted := ⟨List.nodup_nil, by simp [WorkerMem.init], by simp [WorkerMem.init]⟩
  live := by simp [WorkerMem.init]
  published := rfl
  residue := by simp [WorkerMem.init]
  views := by simp [WorkerMem.init]

/-- In every run, whatever the allocator refuses and wherever an attempt fails, the worker takes
the course of its life, and the memory is tidy. -/
theorem credentials_tidy (workerSize : ℕ) (mcf : MainConf) (bind : Option AddressFamily)
    (grants : ℕ → Bool) (es : List LifeEvent) (p : Proc) (m : WorkerMem)
    (h : Run (storage workerSize mcf bind) (Proc.init, WorkerMem.init grants) es (p, m)) :
    Run (lifecycle mcf bind) Proc.init es p ∧ Tidy mcf p m := by
  have hstep : ∀ (s : Proc × WorkerMem) (p' : Proc) (e : LifeEvent),
      s.1 = p' ∧ Tidy mcf s.1 s.2 → (storage workerSize mcf bind).enabled s e →
      (lifecycle mcf bind).enabled p' e ∧ ((storage workerSize mcf bind).next s e).1 =
        (lifecycle mcf bind).next p' e ∧ Tidy mcf ((storage workerSize mcf bind).next s e).1
          ((storage workerSize mcf bind).next s e).2 := by
    rintro ⟨p, m⟩ p' e ⟨rfl, htidy⟩ ⟨henabled, hgranted⟩
    exact ⟨henabled, rfl, store_tidy htidy hgranted⟩
  obtain ⟨p', hrun, rfl, htidy⟩ := h.lockstep ⟨rfl, init_tidy mcf grants⟩ hstep
  exact ⟨hrun, htidy⟩

/-- An attempt without a buffer for the key, one that succeeds, and the exit. -/
def sampleLife : List LifeEvent :=
  [.ensure { sampleHandlerEnv.init with allocSecret := false },
    .ensure { sampleHandlerEnv.init with currentMsec := 2000 }, .exit]

/-- The process after them. -/
def sampleStorage : Proc × WorkerMem :=
  sampleLife.foldl (storage 512 sampleConfig.main none).next
    (Proc.init, WorkerMem.init fun n => n != 2)

theorem sampleLife_admits : (storage 512 sampleConfig.main none).Admits
    (Proc.init, WorkerMem.init fun n => n != 2) sampleLife :=
  ⟨⟨trivial, by decide +kernel⟩, ⟨trivial, by decide +kernel⟩, ⟨trivial, trivial⟩, trivial⟩

theorem sample_tidy : sampleStorage.2.heap.freed = [1, 0, 5, 4, 3] ∧
    sampleStorage.2.views = [some (credentials sampleConfig.main)] ∧
    Run (lifecycle sampleConfig.main none) Proc.init sampleLife sampleStorage.1 ∧
    Tidy sampleConfig.main sampleStorage.1 sampleStorage.2 :=
  ⟨by decide +kernel, by decide +kernel,
    credentials_tidy 512 sampleConfig.main none _ sampleLife _ _
      (Run.of_admits sampleLife_admits)⟩

/-! ## Nothing depends on the key -/

/-- The memories are the same, beside what the clients have read. -/
def SameMemory (m m' : WorkerMem) : Prop :=
  m'.heap = m.heap ∧ m'.worker = m.worker ∧ m'.residue = m.residue

section Independence

variable {mcf : MainConf} {key : Option Bytes} {m m' : WorkerMem}

/-- What an attempt leaves depends on the length of the key. -/
theorem leaves_same
    (hlen : (keyBytes { mcf with authKey := key }).length = (keyBytes mcf).length)
    (h : SameMemory m m') (stage : InitStage) :
    SameMemory (stage.leaves mcf m) (stage.leaves { mcf with authKey := key } m') := by
  obtain ⟨heap, worker, residue, views⟩ := m
  obtain ⟨heap', worker', residue', views'⟩ := m'
  obtain ⟨rfl, rfl, rfl⟩ : heap' = heap ∧ worker' = worker ∧ residue' = residue := h
  have hblocks : bufferBlocks { mcf with authKey := key } = bufferBlocks mcf := by
    unfold bufferBlocks
    rw [hlen]
  have hbuffers : bufferResidue { mcf with authKey := key } = bufferResidue mcf := by
    unfold bufferResidue
    rw [hlen]
    rfl
  refine ⟨?_, ?_, ?_⟩
  · cases stage <;> simp only [InitStage.leaves, hblocks]
    all_goals rfl
  · cases stage <;> rfl
  · cases stage <;> simp only [InitStage.leaves, hbuffers]
    all_goals rfl

theorem initStage_same
    (hlen : (keyBytes { mcf with authKey := key }).length = (keyBytes mcf).length)
    (bind : Option AddressFamily) (env : InitEnv) (os : Os) :
    initStage { mcf with authKey := key } bind env os = initStage mcf bind env os := by
  unfold initStage
  rw [hlen]

/-- The same calls of the allocator are granted. -/
theorem granted_same {e : LifeEvent} (h : SameMemory m m') (he : e.Granted m) :
    e.Granted m' := by
  cases e with
  | ensure env =>
    rw [LifeEvent.Granted, h.1]
    exact he
  | rebind env => trivial
  | activity f => trivial
  | exit => trivial

/-- So does the life of the worker. -/
theorem run_same
    (hlen : (keyBytes { mcf with authKey := key }).length = (keyBytes mcf).length)
    (bind : Option AddressFamily) (p : Proc) (e : LifeEvent) :
    e.run { mcf with authKey := key } bind p = e.run mcf bind p := by
  cases e with
  | ensure env =>
    simp only [LifeEvent.run, rnWorkerEnsure, rnWorkerInit_congr hlen]
  | rebind env => rfl
  | activity f => rfl
  | exit => rfl

/-- And what an event does to the memory. -/
theorem store_same {workerSize : ℕ}
    (hlen : (keyBytes { mcf with authKey := key }).length = (keyBytes mcf).length)
    (bind : Option AddressFamily) (p : Proc) {e : LifeEvent} (h : SameMemory m m')
    (he : e.Granted m) (he' : e.Granted m') :
    SameMemory (e.store workerSize mcf bind p m)
      (e.store workerSize { mcf with authKey := key } bind p m') := by
  obtain ⟨hheap, hworker, hresidue⟩ := h
  cases e with
  | ensure env =>
    simp only [LifeEvent.store, hworker]
    split_ifs
    · exact ⟨hheap, hworker, hresidue⟩
    · exact ⟨hheap, hworker, hresidue⟩
    · rw [workerInit_leaves he, workerInit_leaves he', initStage_same hlen]
      exact leaves_same hlen ⟨hheap, hworker, hresidue⟩ _
  | rebind env => exact ⟨hheap, hworker, hresidue⟩
  | activity f => exact ⟨hheap, hworker, hresidue⟩
  | exit =>
    simp only [LifeEvent.store, workerExit, hworker]
    split
    · exact ⟨hheap, hworker, hresidue⟩
    · simp only [SameMemory, WorkerMem.free, hheap, hresidue, and_self]

end Independence

/-- Another key of the same length goes through the same events, to the same process with the
same memory : the blocks that are there, and what the others held when they were released. -/
theorem key_independent (workerSize : ℕ) (mcf : MainConf) (key : Option Bytes)
    (hlen : (keyBytes { mcf with authKey := key }).length = (keyBytes mcf).length)
    (bind : Option AddressFamily) (grants : ℕ → Bool) (es : List LifeEvent) (p : Proc)
    (m : WorkerMem)
    (h : Run (storage workerSize mcf bind) (Proc.init, WorkerMem.init grants) es (p, m)) :
    ∃ m', Run (storage workerSize { mcf with authKey := key } bind)
      (Proc.init, WorkerMem.init grants) es (p, m') ∧ SameMemory m m' := by
  have hstep : ∀ (s s' : Proc × WorkerMem) (e : LifeEvent), s'.1 = s.1 ∧ SameMemory s.2 s'.2 →
      (storage workerSize mcf bind).enabled s e →
      (storage workerSize { mcf with authKey := key } bind).enabled s' e ∧
        ((storage workerSize { mcf with authKey := key } bind).next s' e).1 =
          ((storage workerSize mcf bind).next s e).1 ∧
        SameMemory ((storage workerSize mcf bind).next s e).2
          ((storage workerSize { mcf with authKey := key } bind).next s' e).2 := by
    rintro ⟨p, m⟩ ⟨p', m'⟩ e ⟨rfl, hsame⟩ ⟨henabled, hgranted⟩
    have hgranted' : e.Granted m' := granted_same hsame hgranted
    exact ⟨⟨henabled, hgranted'⟩, run_same hlen bind p' e,
      store_same hlen bind p' hsame hgranted hgranted'⟩
  have hinit : SameMemory (WorkerMem.init grants) (WorkerMem.init grants) := ⟨rfl, rfl, rfl⟩
  obtain ⟨⟨p', m'⟩, hrun, rfl, hsame⟩ := h.lockstep ⟨rfl, hinit⟩ hstep
  exact ⟨m', hrun, hsame⟩

/-- A key of the same length. -/
def otherKey : Option Bytes :=
  some (List.replicate (keyBytes sampleConfig.main).length 0x6b)

theorem other_key_run :
    ∃ m', Run (storage 512 { sampleConfig.main with authKey := otherKey } none)
      (Proc.init, WorkerMem.init fun n => n != 2) sampleLife (sampleStorage.1, m') ∧
      SameMemory sampleStorage.2 m' :=
  key_independent 512 sampleConfig.main otherKey (by decide +kernel) none _ sampleLife _ _
    (Run.of_admits sampleLife_admits)

end RlNginx
