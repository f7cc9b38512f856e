import Fairy.OmniModel.Manager
import Fairy.Lib.Run

namespace Fairy.OmniModel

open Fairy.Lib

/-- The calls whose failure leaves an operation half begun or half ended; after a failure at any
other place the operation still runs or is settled. -/
def Site.settles : Site → Bool
  | checkingSpace | requiredDiskBytes | diskInsufficient | prepareStaging | installPartialBytes
  | downloading | beginVerify | failedPartialBytes | failed | settledPartialBytes | settled
  | cancelPartialBytes | cancelled | installed | verificationPartialBytes | verificationCancelled
  | verificationFailed | beginSelfTest | selfTestReady | selfTestFailed => true
  | _ => false

/-- The marker and both phases, when something is `known`. A manager whose sequence is exhausted
writes no state any more, and nothing is said of it. -/
def At (known : Prop) (operation : Option ActiveOperation) (busy : Bool) (w : World) : Prop :=
  maxU64 ≤ w.state.sequence ∨
    (known ∧ w.active = operation ∧ w.state.phase.isActive = busy ∧
      w.stored.phase.isActive = busy)

namespace At

variable {known known' : Prop} {operation operation' : Option ActiveOperation} {busy busy' : Bool}
  {w : World}

theorem mono (h : At known operation busy w) (hk : known → known') : At known' operation busy w :=
  h.imp_right fun ⟨hknown, hrest⟩ => ⟨hk hknown, hrest⟩

theorem of_idle (h : At (known ∧ operation = none) none false w) :
    At known operation operation.isSome w := by
  refine h.imp_right fun ⟨⟨hknown, hnone⟩, hrest⟩ => ?_
  subst hnone
  exact ⟨hknown, hrest⟩

end At

section Calls

variable {env : Env} {known : Prop} {operation : Option ActiveOperation} {busy : Bool}
  {raised : World → Prop}

theorem exec_here_bind {α : Type} {f : World → Manage α} {w : World} :
    exec (here >>= f) w = exec (f w) w := exec_bind_ok rfl

theorem exec_update_bind {α : Type} {g : World → World} {f : Unit → Manage α} {w : World} :
    exec (update g >>= f) w = exec (f ()) (g w) := exec_bind_ok rfl

theorem exec_transition {site : Site} {phase : Phase} {file code : Option String} {bytes : Nat}
    {w : World} : exec (transition env site phase file code bytes) w =
      if maxU64 < w.state.sequence + 1 then
        (.error (.verification "MODEL_SEQUENCE_OVERFLOW"), w)
      else
        let next := { w.state with
          sequence := w.state.sequence + 1, phase, currentFile := file, errorCode := code
          receivedBytes := min bytes w.state.totalBytes }
        match env.fails site w.calls with
        | some error => (.error error, { w with state := next, calls := w.calls + 1 })
        | none => (.ok (), { w with state := next, stored := next, calls := w.calls + 1 }) := by
  rw [transition, exec_here_bind]
  split
  · rfl
  · rw [exec_update_bind, exec_bind, ask, exec_effect]
    cases env.fails site w.calls <;> rfl

end Calls

section Guards

variable {known : Prop} {operation : Option ActiveOperation} {raised : World → Prop} {α : Type}

theorem exec_requireIdle {w : World} : exec requireIdle w =
    if w.active.isSome ∨ w.state.phase.isActive then (.error .busy, w) else (.ok (), w) := by
  rw [requireIdle, exec_here_bind]
  split <;> rfl

/-- What runs once a call that completes `ended` has returned. -/
def ActiveOperation.completed (ended : ActiveOperation) (running : Option ActiveOperation) :
    Option ActiveOperation :=
  if running = some ended then none else running

end Guards

section Files

variable {env : Env} {manifest : Manifest} {known : Prop} {operation : Option ActiveOperation}

end Files

section Operations

variable {env : Env} {manifest : Manifest} {known : Prop} {operation : Option ActiveOperation}
  {busy : Bool} {raised : World → Prop}
  (henv : ∀ site n, site.settles = true → env.fails site n = none)

include henv

end Operations

section Session

variable (env : Env) (manifest : Manifest)

/-- The operations that a manager is asked for. -/
inductive Call
  | beginInstall (diskAvailableBytes : Nat)
  | beginVerify
  | downloadAndInstall
  | requestCancel
  | finishCancel
  | verifyInstalled
  | beginRuntimeSelfTest
  | finishRuntimeSelfTest (errorCode : Option String)
  | remove

def perform : Call → Manage Unit
  | .beginInstall diskAvailableBytes => beginInstall env manifest diskAvailableBytes
  | .beginVerify => beginVerify env
  | .downloadAndInstall => downloadAndInstall env manifest
  | .requestCancel => requestCancel env
  | .finishCancel => finishCancel env
  | .verifyInstalled => verifyInstalled env manifest
  | .beginRuntimeSelfTest => beginRuntimeSelfTest env manifest
  | .finishRuntimeSelfTest errorCode => finishRuntimeSelfTest env manifest errorCode
  | .remove => remove env

/-- The operation that runs after a call: one that a begin has started and whose completing call
has not returned. -/
def Call.running (call : Call) (result : Except ManagerError Unit)
    (running : Option ActiveOperation) : Option ActiveOperation :=
  match call with
  | beginInstall _ => if result.isOk then some .install else running
  | beginVerify => if result.isOk then some .verify else running
  | beginRuntimeSelfTest => if result.isOk then some .runtimeSelfTest else running
  | downloadAndInstall => ActiveOperation.install.completed running
  | verifyInstalled => ActiveOperation.verify.completed running
  | finishRuntimeSelfTest _ => ActiveOperation.runtimeSelfTest.completed running
  | finishCancel => none
  | requestCancel | remove => running

/-- A manager with the operation that runs. -/
structure Session where
  world : World
  running : Option ActiveOperation

def Session.call (s : Session) (call : Call) : Session where
  world := (exec (perform env manifest call) s.world).2
  running := call.running (exec (perform env manifest call) s.world).1 s.running

variable {env manifest} {known : Prop} {operation : Option ActiveOperation}

/-- What runs after a begin is what it has started, or what ran before. -/
theorem begun {m : Manage Unit} {started : ActiveOperation}
    (hm : Ends (At known operation operation.isSome) m (fun _ => At known (some started) true)
      (At known operation operation.isSome)) {w : World}
    (hw : At known operation operation.isSome w) :
    At known (if (exec m w).1.isOk then some started else operation)
      (if (exec m w).1.isOk then some started else operation).isSome (exec m w).2 := by
  obtain ⟨hok, herror⟩ := hm w hw
  cases hexec : exec m w with
  | mk r t =>
    cases r with
    | ok a => exact hok a t hexec
    | error e => exact herror e t hexec

variable {s : Session}

def Session.start (w : World) : Session where
  world := w
  running := none

/-- The calls of an environment in which nothing fails. -/
def quiet : Env where
  fails _ _ := none
  value _ _ := 0
  cancels _ := false
  transfer _ := ([], none)

def oneFile : Manifest where
  files := [⟨"MiniCPM-o-4_5-Q4_K_M.gguf", 4⟩]
  small := by decide

def fresh : InstallState where
  sequence := 0
  phase := .notInstalled
  currentFile := none
  receivedBytes := 0
  totalBytes := 4
  errorCode := none

/-- Without the first hypothesis this fails: a verification whose first write fails is not begun,
and still keeps every later operation out. -/
theorem beginVerify_locks {w : World} {error : ManagerError} (hw : At True none false w)
    (hroom : w.state.sequence < maxU64) (hfails : env.fails .beginVerify w.calls = some error) :
    (exec (beginVerify env) w).1 = .error error ∧
      (exec requireIdle (exec (beginVerify env) w).2).1 = .error .busy := by
  obtain hfull | ⟨-, hactive, hphase, -⟩ := hw
  · omega
  · have hidle : ¬ (w.active.isSome ∨ w.state.phase.isActive) := by simp [hactive, hphase]
    have hfree : exec requireIdle w = (.ok (), w) := by rw [exec_requireIdle, if_neg hidle]
    rw [beginVerify, exec_bind_ok hfree, occupy, exec_update_bind, exec_here_bind, exec_transition,
      if_neg (by simp only; omega), hfails]
    exact ⟨rfl, rfl⟩

end Session

end Fairy.OmniModel
