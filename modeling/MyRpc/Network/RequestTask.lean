import MyRpc.Network.MessageCycle
import MyRpc.Service.ServiceManager

/-!
# The task behind a request

`HandleRpcRequest` hands a closure to the pool and drops the future it gets.
An exception of the service passes through `ServiceManager` and
`HandleRpcRequestSync`, which write nothing on that path, and ends in the
shared state of the `packaged_task`, where nobody looks.
-/

namespace MyRpc.MessageCycle

open FixedWidth

/-- A callable that has come to its end: how the handler it called ended, the
responses it gave to `Write`, and whether it threw. -/
structure Ran where
  called : Option Reply
  writes : List RpcResponse
  threw : Bool
  deriving DecidableEq

/-- `HandleRpcRequestSync`. -/
def runRequest (services : ServiceManager) (request : RpcRequest) : Ran :=
  if request.serviceName.isEmpty ∨ request.methodName.isEmpty then
    ⟨none, [handleRpcRequestSync request none], false⟩
  else
    match services.handleRpcRequest request.serviceName request.methodName request.payload with
    | (called, .threw) => ⟨called, [], true⟩
    | (called, .returned false _) => ⟨called, [handleRpcRequestSync request none], false⟩
    | (called, .returned true result) =>
        ⟨called, [handleRpcRequestSync request (some result)], false⟩

/-- The shared state of a `packaged_task`, which its future would read. -/
inductive SharedState
  | value
  | exception
  deriving DecidableEq, Repr

/-- `(*task)()` catches whatever the callable throws. -/
def packagedTask (ran : Ran) : Ran × SharedState :=
  ({ ran with threw := false }, if ran.threw then .exception else .value)

/-- A task of the pool after `worker_thread` has executed it; `failed` is the
branch of its `catch`. -/
structure Executed where
  called : Option Reply
  writes : List RpcResponse
  shared : SharedState
  failed : Bool
  deriving DecidableEq

/-- What becomes of the closure of `HandleRpcRequest` when the pool runs it. -/
def handleRpcRequest (services : ServiceManager) (request : RpcRequest) : Executed :=
  let (ran, shared) := packagedTask (runRequest services request)
  ⟨ran.called, ran.writes, shared, ran.threw⟩

/-- Exactly one response is written; it carries the sequence id, and reports
success with the handler's result just when a handler was called and returned
true. -/
def AnsweredOnce (services : ServiceManager) (request : RpcRequest) : Prop :=
  ∃ response, (handleRpcRequest services request).writes = [response] ∧
    response.sequenceId = request.sequenceId ∧
      match (handleRpcRequest services request).called with
      | some (.returned true result) =>
          response.errorCode = ErrorCode.success.toUInt32 ∧ response.resultData = result
      | _ => response.errorCode ≠ ErrorCode.success.toUInt32

/-- The handler that the request is for, if it is for one, does not throw. -/
def NoThrow (services : ServiceManager) (request : RpcRequest) : Prop :=
  request.serviceName ≠ [] → request.methodName ≠ [] →
    ∀ service, services.find request.serviceName = some service →
      service.handleRequest request.methodName request.payload ≠ .threw

variable {services : ServiceManager} {request : RpcRequest}

theorem errorResponse_errorCode_ne (sequenceId : UInt32) {code : ErrorCode}
    (h : code ≠ .success) :
    (errorResponse sequenceId code).errorCode ≠ ErrorCode.success.toUInt32 := by
  cases code with
  | success => exact absurd rfl h
  | serviceNotFound | methodNotFound | invalidRequest | internalError =>
      simp [errorResponse, ErrorCode.toUInt32]

theorem handleRpcRequestSync_errorCode_ne (request : RpcRequest) :
    (handleRpcRequestSync request none).errorCode ≠ ErrorCode.success.toUInt32 := by
  unfold handleRpcRequestSync
  split
  · exact errorResponse_errorCode_ne _ (by simp)
  · exact errorResponse_errorCode_ne _ (by simp)

theorem handleRpcRequest_unnamed (h : request.serviceName = [] ∨ request.methodName = []) :
    handleRpcRequest services request =
      ⟨none, [handleRpcRequestSync request none], .value, false⟩ := by
  simp [handleRpcRequest, runRequest, packagedTask, h]

theorem handleRpcRequest_unregistered (hservice : request.serviceName ≠ [])
    (hmethod : request.methodName ≠ []) (h : services.find request.serviceName = none) :
    handleRpcRequest services request =
      ⟨none, [handleRpcRequestSync request none], .value, false⟩ := by
  simp [handleRpcRequest, runRequest, packagedTask, hservice, hmethod,
    ServiceManager.handleRpcRequest, h]

theorem handleRpcRequest_registered {service : Service} (hservice : request.serviceName ≠ [])
    (hmethod : request.methodName ≠ [])
    (h : services.find request.serviceName = some service) :
    handleRpcRequest services request =
      match service.handleRequest request.methodName request.payload with
      | .threw => ⟨some .threw, [], .exception, false⟩
      | .returned false result =>
          ⟨some (.returned false result), [handleRpcRequestSync request none], .value, false⟩
      | .returned true result =>
          ⟨some (.returned true result), [handleRpcRequestSync request (some result)], .value,
            false⟩ := by
  simp only [handleRpcRequest, runRequest, List.isEmpty_iff, hservice, hmethod, or_self,
    if_false, ServiceManager.handleRpcRequest, h]
  cases service.handleRequest request.methodName request.payload with
  | threw => rfl
  | returned ok result => cases ok <;> rfl

theorem answeredOnce_of_refused {called : Option Reply} {shared : SharedState} {failed : Bool}
    (h : handleRpcRequest services request =
      ⟨called, [handleRpcRequestSync request none], shared, failed⟩)
    (hcalled : ∀ result, called ≠ some (.returned true result)) :
    AnsweredOnce services request := by
  refine ⟨handleRpcRequestSync request none, by rw [h], by simp, ?_⟩
  rw [h]
  have hrefused := handleRpcRequestSync_errorCode_ne request
  rcases called with _ | ⟨ok, result⟩ | _
  · exact hrefused
  · cases ok with
    | false => exact hrefused
    | true => exact absurd rfl (hcalled result)
  · exact hrefused

/-- **Which requests are answered.**  Exactly one right answer is written if
and only if the handler the request is for does not throw. -/
theorem answeredOnce_iff (services : ServiceManager) (request : RpcRequest) :
    AnsweredOnce services request ↔ NoThrow services request := by
  by_cases hnamed : request.serviceName = [] ∨ request.methodName = []
  · apply iff_of_true
    · exact answeredOnce_of_refused (handleRpcRequest_unnamed hnamed) (by simp)
    · intro hservice hmethod
      exact absurd hnamed (not_or.mpr ⟨hservice, hmethod⟩)
  · obtain ⟨hservice, hmethod⟩ := not_or.mp hnamed
    cases hfind : services.find request.serviceName with
    | none =>
        apply iff_of_true
        · exact answeredOnce_of_refused
            (handleRpcRequest_unregistered hservice hmethod hfind) (by simp)
        · intro _ _ service hsome
          simp [hfind] at hsome
    | some service =>
        have hrun := handleRpcRequest_registered hservice hmethod hfind
        have hcondition : NoThrow services request ↔
            service.handleRequest request.methodName request.payload ≠ .threw := by
          simp [NoThrow, hservice, hmethod, hfind]
        rw [hcondition]
        cases hreply : service.handleRequest request.methodName request.payload with
        | threw =>
            rw [hreply] at hrun
            refine iff_of_false ?_ (by simp)
            rintro ⟨response, hwrites, -⟩
            simp [hrun] at hwrites
        | returned ok result =>
            rw [hreply] at hrun
            refine iff_of_true ?_ (by simp)
            cases ok with
            | false => exact answeredOnce_of_refused hrun (by simp)
            | true =>
                refine ⟨handleRpcRequestSync request (some result), by rw [hrun], by simp, ?_⟩
                rw [hrun]
                simp [handleRpcRequestSync, hservice, hmethod]

/-- A service whose handler throws on every request. -/
def throwing : ServiceManager :=
  (ServiceManager.empty.registerService (some ⟨[0x73], fun _ _ ↦ .threw⟩)).2

def throwingRequest : RpcRequest := ⟨7, [0x73], [0x6d], []⟩

theorem not_answeredOnce_throwing : ¬ AnsweredOnce throwing throwingRequest := by
  rintro ⟨response, hwrites, -⟩
  have hsilent : (handleRpcRequest throwing throwingRequest).writes = [] := by decide
  rw [hsilent] at hwrites
  cases hwrites

end MyRpc.MessageCycle
