/-
  File:      Crypto/EncryptionService.lean
  Subject:   The client's encryption service (`encryption_service.dart`): the content key held in
             memory, the state shown to the app, and the five operations that set them.

  * `EnableAwait.resume`, `UnlockAwait.resume`, `PrepareAwait.resume`, `RecoverAwait.resume`,
    `TrustAwait.resume` -- one turn each of `enable`, `unlock`, `prepareForSession`, `_recover`,
    and of `registerThisDevice` / `_retrustThisDevice`.

  A Dart `async` function runs from one `await` to the next without interruption. So an operation is the
  type of its awaits, with the locals that are still needed, and a function from one to the next on the
  answer that came back.

  Bytes are their base64 text. `κ` is the type of content keys, `π` that of device key pairs.
-/
import TraxJourney.Lib.Runs

namespace TraxJourney.Crypto

/-! ## 1. The data -/

/-- Where this account and device stand with encryption. -/
inductive EncryptionState where
  | disabled | unlocked | locked | awaitingApproval
  deriving DecidableEq

structure EncryptionStatus where
  enabled : Bool
  recoveryMethods : List String := []
  deviceRegistered : Bool
  deviceApproved : Bool
  wrappedCmkB64 : Option String := none
  ephemeralPublicKeyB64 : Option String := none
  unconfirmedRecoveryMethods : List String := []

structure RecoveryWrapData where
  wrappedCmkB64 : String
  saltB64 : String
  kdfParamsJson : Option String

structure WrappedCmk where
  blob : String
  ephemeralPublicKey : Option String

inductive RecoveryChoice where
  | recoveryKey
  | passphrase (passphrase : String)
  | qna (questions answers : List String)

/-- The method name under which the server stores the wrap of a choice. -/
def RecoveryChoice.method : RecoveryChoice → String
  | .recoveryKey => "recovery_key"
  | .passphrase _ => "passphrase"
  | .qna _ _ => "qna"

/-- The generated secret is drawn, and handed back, for a recovery key only. -/
def RecoveryChoice.recoverySecret (drawn : String) : RecoveryChoice → Option String
  | .recoveryKey => some drawn
  | .passphrase _ | .qna _ _ => none

structure RecoveryKeyConfirmation where
  wrappedCmkB64 : String
  generation : ℕ

structure EnableResult where
  recoverySecret : Option String
  confirmation : Option RecoveryKeyConfirmation

inductive Thrown where
  | awaited           -- what the awaited call threw
  | sessionEnded      -- `EncryptionSessionEnded`
  | formatException   -- `base64.decode`
  | nullCheck         -- `!` on null
  | stateError        -- `_requireCmk` while locked

inductive Outcome where
  | returned (result : Bool)
  | enabled (result : EnableResult)
  | threw (error : Thrown)

/-- The fields of the service. `keyFrom` is not in the source: it records which call assigned
    `_cmk` last. -/
structure EncryptionService (κ : Type) where
  cmk : Option κ
  state : EncryptionState
  status : Option EncryptionStatus
  lockGeneration : ℕ
  keyFrom : Option ℕ

namespace EncryptionService

variable {κ : Type}

def fresh : EncryptionService κ := ⟨none, .disabled, none, 0, none⟩

def isUnlocked (s : EncryptionService κ) : Bool := s.cmk.isSome

/-- Drop the in-memory key; an unlocked device becomes locked. -/
def lock (s : EncryptionService κ) : EncryptionService κ :=
  { s with
    cmk := none
    status := none
    lockGeneration := s.lockGeneration + 1
    state := if s.state = .unlocked then .locked else s.state }

/-- `_cmk = cmk; _state.value = unlocked`, done by call `me`. -/
def hold (me : ℕ) (cmk : κ) (s : EncryptionService κ) : EncryptionService κ :=
  { s with cmk := some cmk, state := .unlocked, keyFrom := some me }

def setState (v : EncryptionState) (s : EncryptionService κ) : EncryptionService κ := { s with state := v }

def setStatus (st : EncryptionStatus) (s : EncryptionService κ) : EncryptionService κ :=
  { s with status := some st }

end EncryptionService

/-! ## 2. One turn of each operation

What an awaited call comes back with, and where a turn leaves its operation: at the next await,
or done. An answer of the wrong kind for the await is no step (`none`).
-/

inductive Answer (κ π : Type) where
  | threw
  | done
  | key (cmk : κ)
  | keyPair (stored : Option π)
  | newKeyPair (keyPair : π)
  | publicKey (b64 : String)
  | wrapped (w : WrappedCmk)
  | status (st : EncryptionStatus)
  | recoveryWrap (w : Option RecoveryWrapData)
  | stored (wrapB64 : Option String)

inductive Flow (α : Type) where
  | await (next : α)
  | ends (o : Outcome)

variable {κ π : Type}

/-! ### `enable` -/

inductive EnableAwait (κ π : Type) where
  | generateCmk (choice : RecoveryChoice) (drawn : String)
  | load (choice : RecoveryChoice) (drawn : String) (cmk : κ)
  | generateDeviceKeyPair (choice : RecoveryChoice) (drawn : String) (cmk : κ)
  | extractPublicKey (choice : RecoveryChoice) (drawn : String) (cmk : κ) (keyPair : π)
  | wrapToDevice (choice : RecoveryChoice) (drawn : String) (cmk : κ) (keyPair : π) (devicePub : String)
  | wrapRecovery (choice : RecoveryChoice) (drawn : String) (cmk : κ) (keyPair : π)
      (devicePub : String) (deviceWrap : WrappedCmk)
  | save (choice : RecoveryChoice) (drawn : String) (cmk : κ) (devicePub : String)
      (deviceWrap recoveryWrap : WrappedCmk)
  | request (recoverySecret : Option String) (cmk : κ) (method devicePub : String)
      (deviceWrap recoveryWrap : WrappedCmk)

/-- What `enable` returns: no confirmation without a secret, and the wrap the server says it
    stored or else the one that was sent. -/
def enableResult (generation : ℕ) (recoverySecret : Option String) (recoveryWrap : WrappedCmk)
    (stored : Option String) : EnableResult :=
  match recoverySecret with
  | none => ⟨none, none⟩
  | some secret => ⟨some secret, some ⟨stored.getD recoveryWrap.blob, generation⟩⟩

def EnableAwait.resume (me generation : ℕ) (s : EncryptionService κ) :
    EnableAwait κ π → Answer κ π → Option (EncryptionService κ × Flow (EnableAwait κ π))
  | .generateCmk ch d, .key cmk => some (s, .await (.load ch d cmk))
  | .load ch d cmk, .keyPair (some kp) => some (s, .await (.extractPublicKey ch d cmk kp))
  | .load ch d cmk, .keyPair none => some (s, .await (.generateDeviceKeyPair ch d cmk))
  | .generateDeviceKeyPair ch d cmk, .newKeyPair kp => some (s, .await (.extractPublicKey ch d cmk kp))
  | .extractPublicKey ch d cmk kp, .publicKey pub => some (s, .await (.wrapToDevice ch d cmk kp pub))
  | .wrapToDevice ch d cmk kp pub, .wrapped dw => some (s, .await (.wrapRecovery ch d cmk kp pub dw))
  | .wrapRecovery ch d cmk _ pub dw, .wrapped rw =>
    if generation ≠ s.lockGeneration then some (s, .ends (.threw .sessionEnded))
    else some (s, .await (.save ch d cmk pub dw rw))
  | .save ch d cmk pub dw rw, .done =>
    if generation ≠ s.lockGeneration then some (s, .ends (.threw .sessionEnded))
    else some (s, .await (.request (ch.recoverySecret d) cmk ch.method pub dw rw))
  | .request secret cmk _ _ _ rw, .stored w =>
    let s' := if generation = s.lockGeneration then s.hold me cmk else s
    some (s', .ends (.enabled (enableResult generation secret rw w)))
  | _, .threw => some (s, .ends (.threw .awaited))
  | _, _ => none

/-! ### `unlock` -/

inductive UnlockAwait (π : Type) where
  | load
  | extractPublicKey (keyPair : π)
  | fetchStatus (keyPair : π) (publicKeyB64 : String)
  | unwrap (keyPair : π) (status : EncryptionStatus) (wrapped : WrappedCmk)

/-- The wrapped key of an answer that says enabled and approved, decoded: `base64.decode` may
    throw, and `ephemeralPublicKeyB64` is taken with `!`. -/
def wrappedOf (base64 : String → Bool) (wrappedB64 : String) (ephemeralB64 : Option String) :
    Except Thrown WrappedCmk :=
  if base64 wrappedB64 = false then .error .formatException
  else match ephemeralB64 with
    | none => .error .nullCheck
    | some e => if base64 e = false then .error .formatException else .ok ⟨wrappedB64, some e⟩

def UnlockAwait.resume (base64 : String → Bool) (me generation : ℕ) (s : EncryptionService κ) :
    UnlockAwait π → Answer κ π → Option (EncryptionService κ × Flow (UnlockAwait π))
  | .load, .keyPair none => some (s, .ends (.returned false))
  | .load, .keyPair (some kp) => some (s, .await (.extractPublicKey kp))
  | .extractPublicKey kp, .publicKey pub => some (s, .await (.fetchStatus kp pub))
  | .fetchStatus kp _, .status st =>
    if generation ≠ s.lockGeneration then some (s, .ends (.returned false))
    else if st.enabled = false then some (s.setState .disabled, .ends (.returned false))
    else if st.deviceApproved = false then
      some (s.setState .awaitingApproval, .ends (.returned false))
    else match st.wrappedCmkB64 with
      | none => some (s.setState .awaitingApproval, .ends (.returned false))
      | some w => match wrappedOf base64 w st.ephemeralPublicKeyB64 with
        | .error e => some (s, .ends (.threw e))
        | .ok wrapped => some (s, .await (.unwrap kp st wrapped))
  | .unwrap _ st _, .key cmk =>
    if generation ≠ s.lockGeneration then some (s, .ends (.returned false))
    else some ((s.hold me cmk).setStatus st, .ends (.returned true))
  -- approved, yet the key would not unwrap: encrypted and locked, then rethrown
  | .unwrap _ _ _, .threw =>
    let s' := if generation = s.lockGeneration then s.setState .locked else s
    some (s', .ends (.threw .awaited))
  | _, .threw => some (s, .ends (.threw .awaited))
  | _, _ => none

/-! ### `registerThisDevice` and `_retrustThisDevice`

Both load or make the device key pair, save it, extract its public key and register it. The
first is awaited by `prepareForSession`, which then returns false; the second goes on to
`approveDevice`, and `_recover` then returns true. -/

inductive Registration where
  | pending
  | retrust

inductive TrustAwait (κ π : Type) where
  | load
  | generateDeviceKeyPair
  | save (keyPair : π)
  | extractPublicKey (keyPair : π)
  | registerDevice (publicKeyB64 : String)
  | wrapToDevice (publicKeyB64 : String) (cmk : κ)
  | approveDevice (publicKeyB64 : String) (w : WrappedCmk)

def TrustAwait.resume (r : Registration) (s : EncryptionService κ) :
    TrustAwait κ π → Answer κ π → Option (Flow (TrustAwait κ π))
  | .load, .keyPair (some kp) => some (.await (.save kp))
  | .load, .keyPair none => some (.await .generateDeviceKeyPair)
  | .generateDeviceKeyPair, .newKeyPair kp => some (.await (.save kp))
  | .save kp, .done => some (.await (.extractPublicKey kp))
  | .extractPublicKey _, .publicKey pub => some (.await (.registerDevice pub))
  | .registerDevice pub, .done =>
    match r with
    | .pending => some (.ends (.returned false))
    | .retrust => match s.cmk with
      | none => some (.ends (.threw .stateError))
      | some cmk => some (.await (.wrapToDevice pub cmk))
  | .wrapToDevice pub _, .wrapped w => some (.await (.approveDevice pub w))
  | .approveDevice _ _, .done => some (.ends (.returned true))
  | _, .threw => some (.ends (.threw .awaited))
  | _, _ => none

/-! ### `prepareForSession` -/

inductive PrepareAwait (π : Type) where
  /-- `unlock` has ended with `o`; its result is taken in a later turn -/
  | unlockEnded (o : Outcome)
  | load
  | extractPublicKey (keyPair : π)
  | fetchStatus (publicKeyB64 : Option String)

/-- `none` in the flow is the call of `registerThisDevice`. -/
def PrepareAwait.resume (generation : ℕ) (s : EncryptionService κ) :
    PrepareAwait π → Answer κ π → Option (EncryptionService κ × Flow (Option (PrepareAwait π)))
  | .unlockEnded (.returned false), .done => some (s, .await (some .load))
  | .unlockEnded o, .done => some (s, .ends o)
  | .load, .keyPair none => some (s, .await (some (.fetchStatus none)))
  | .load, .keyPair (some kp) => some (s, .await (some (.extractPublicKey kp)))
  | .extractPublicKey _, .publicKey pub => some (s, .await (some (.fetchStatus (some pub))))
  | .fetchStatus _, .status st =>
    if generation ≠ s.lockGeneration then some (s, .ends (.returned false))
    else if st.enabled = false then some (s.setState .disabled, .ends (.returned false))
    else if st.deviceApproved = false then some (s.setState .awaitingApproval, .await none)
    else some (s.setState .locked, .ends (.returned false))
  | .load, .threw | .extractPublicKey _, .threw | .fetchStatus _, .threw => some (s, .ends (.threw .awaited))
  | _, _ => none

/-! ### `_recover` -/

inductive RecoveryMethod where
  | recoveryKey | passphrase | qna

inductive RecoverAwait where
  | fetchRecoveryWrap (method : RecoveryMethod)
  | unwrap (wrap : RecoveryWrapData)

/-- Whether the closure that unwraps gets as far as its awaited call: the base64 texts decode,
    and for the two Argon2 methods so do the parameters. -/
def unwrapStarts (base64 argonParams : String → Bool) (method : RecoveryMethod)
    (w : RecoveryWrapData) : Bool :=
  base64 w.wrappedCmkB64 && base64 w.saltB64 &&
    match method with
    | .recoveryKey => true
    | .passphrase | .qna => w.kdfParamsJson.elim true argonParams

/-- `none` in the flow is the call of `_retrustThisDevice`. -/
def RecoverAwait.resume (base64 argonParams : String → Bool) (me generation : ℕ) (s : EncryptionService κ) :
    RecoverAwait → Answer κ π → Option (EncryptionService κ × Flow (Option RecoverAwait))
  | .fetchRecoveryWrap _, .recoveryWrap none => some (s, .ends (.returned false))
  | .fetchRecoveryWrap m, .recoveryWrap (some w) =>
    if unwrapStarts base64 argonParams m w then some (s, .await (some (.unwrap w)))
    else some (s, .ends (.returned false))
  | .fetchRecoveryWrap _, .threw => some (s, .ends (.threw .awaited))
  | .unwrap _, .key cmk =>
    if generation ≠ s.lockGeneration then some (s, .ends (.returned false))
    else some (s.hold me cmk, .await none)
  -- wrong secret or corrupt wrap
  | .unwrap _, .threw => some (s, .ends (.returned false))
  | _, _ => none

/-! ## 3. Calls in flight over one service -/

/-- Who awaits an `unlock`: the app, or a `prepareForSession` that captured `generation`. -/
inductive UnlockCaller where
  | app
  | prepareForSession (generation : ℕ)

/-- A suspended call, with the generation it captured at its start. -/
inductive Awaiting (κ π : Type) where
  | enable (generation : ℕ) (at' : EnableAwait κ π)
  | unlock (caller : UnlockCaller) (generation : ℕ) (at' : UnlockAwait π)
  | prepareForSession (generation : ℕ) (at' : PrepareAwait π)
  | recover (generation : ℕ) (at' : RecoverAwait)
  | trust (r : Registration) (at' : TrustAwait κ π)

inductive Call (κ π : Type) where
  | suspended (a : Awaiting κ π)
  | ended (o : Outcome)

/-- A turn's flow, as the state of the call it belongs to. -/
def Flow.toCall {α : Type} (awaiting : α → Awaiting κ π) (done : Outcome → Call κ π) : Flow α → Call κ π
  | .await next => .suspended (awaiting next)
  | .ends o => done o

def UnlockCaller.done : UnlockCaller → Outcome → Call κ π
  | .app, o => .ended o
  | .prepareForSession g, o => .suspended (.prepareForSession g (.unlockEnded o))

/-- The texts `base64.decode` and `Argon2Params.fromJson` accept. -/
structure Decoders where
  base64 : String → Bool
  argonParams : String → Bool

/-- One turn of a suspended call. -/
def Awaiting.resume (d : Decoders) (me : ℕ) (s : EncryptionService κ) :
    Awaiting κ π → Answer κ π → Option (EncryptionService κ × Call κ π)
  | .enable g a, ans => (a.resume me g s ans).map fun (s', f) => (s', f.toCall (.enable g) .ended)
  | .unlock c g a, ans =>
    (a.resume d.base64 me g s ans).map fun (s', f) => (s', f.toCall (.unlock c g) c.done)
  | .prepareForSession g a, ans =>
    (a.resume g s ans).map fun (s', f) =>
      (s', f.toCall (fun n => n.elim (.trust .pending .load) (.prepareForSession g)) .ended)
  | .recover g a, ans =>
    (a.resume d.base64 d.argonParams me g s ans).map fun (s', f) =>
      (s', f.toCall (fun n => n.elim (.trust .retrust .load) (.recover g)) .ended)
  | .trust r a, ans => (a.resume r s ans).map fun f => (s, f.toCall (.trust r) .ended)

inductive Operation where
  /-- `drawn` is what `generateRecoverySecret` will draw -/
  | enable (choice : RecoveryChoice) (drawn : String)
  | unlock
  | prepareForSession
  | recover (method : RecoveryMethod)

/-- The first turn of an operation, up to its first await. -/
def Operation.start (s : EncryptionService κ) : Operation → EncryptionService κ × Awaiting κ π
  | .enable ch d => (s, .enable s.lockGeneration (.generateCmk ch d))
  | .unlock => (s, .unlock .app s.lockGeneration .load)
  | .prepareForSession =>
    (if s.isUnlocked = false then s.setState .disabled else s,
      .unlock (.prepareForSession s.lockGeneration) s.lockGeneration .load)
  | .recover m => (s, .recover s.lockGeneration (.fetchRecoveryWrap m))

/-- The service and every call made of it, numbered as they begin. `begunAtLock` is not in the
    source: how many had begun at the last `lock`. -/
structure World (κ π : Type) where
  service : EncryptionService κ
  calls : ℕ → Option (Call κ π)
  begun : ℕ
  begunAtLock : ℕ

def World.init : World κ π := ⟨.fresh, fun _ => none, 0, 0⟩

inductive Label (κ π : Type) where
  | lock
  | begin (op : Operation)
  | resume (call : ℕ) (answer : Answer κ π)

def step (d : Decoders) (w : World κ π) : Label κ π → Option (World κ π)
  | .lock => some { w with service := w.service.lock, begunAtLock := w.begun }
  | .begin op =>
    let (s', a) := op.start w.service
    some { w with
      service := s'
      calls := Function.update w.calls w.begun (some (.suspended a))
      begun := w.begun + 1 }
  | .resume i ans =>
    match w.calls i with
    | some (.suspended a) =>
      (a.resume d i w.service ans).map fun (s', c) =>
        { w with service := s', calls := Function.update w.calls i (some c) }
    | _ => none

end TraxJourney.Crypto
