import MyRpc.Protocol.RpcProtocol

/-!
# `ServiceManager`

The registry is an association list whose names are distinct, as the keys of
the map are.  A service is what a call of its `HandleRequest` can end with, an
exception included.
-/

namespace MyRpc

open FixedWidth

/-- How a call of `HandleRequest` ends: with its result and what it has left in
the `result` argument, or with an exception. -/
inductive Reply
  | returned (ok : Bool) (result : Bytes)
  | threw
  deriving DecidableEq, Repr

structure Service where
  getServiceName : Bytes
  handleRequest : Bytes → Bytes → Reply

structure ServiceManager where
  services : List (Bytes × Service)
  distinct : (services.map Prod.fst).Nodup

namespace ServiceManager

def empty : ServiceManager := ⟨[], List.nodup_nil⟩

def find (self : ServiceManager) (serviceName : Bytes) : Option Service :=
  (self.services.find? fun e ↦ e.1 = serviceName).map Prod.snd

theorem find_eq_none {self : ServiceManager} {serviceName : Bytes} :
    self.find serviceName = none ↔ serviceName ∉ self.services.map Prod.fst := by
  simp only [find, Option.map_eq_none_iff, List.find?_eq_none, decide_eq_true_eq, List.mem_map,
    not_exists, not_and]

/-- `RegisterService`; `none` is the null pointer. -/
def registerService (self : ServiceManager) : Option Service → Bool × ServiceManager
  | none => (false, self)
  | some service =>
      if h : self.find service.getServiceName = none then
        (true, ⟨(service.getServiceName, service) :: self.services,
          List.nodup_cons.mpr ⟨find_eq_none.mp h, self.distinct⟩⟩)
      else (false, self)

/-- `HandleRpcRequest`: how it ends, and how the call of `HandleRequest` it
made ended, if it made one. -/
def handleRpcRequest (self : ServiceManager) (serviceName methodName args : Bytes) :
    Option Reply × Reply :=
  match self.find serviceName with
  | none => (none, .returned false [])
  | some service =>
      let reply := service.handleRequest methodName args
      (some reply, reply)

theorem registerService_new {self : ServiceManager} {service : Service}
    (h : self.find service.getServiceName = none) :
    (self.registerService (some service)).2.services =
      (service.getServiceName, service) :: self.services := by
  rw [registerService, dif_pos h]

/-- A registered service answers to its name from then on, and the others keep
their place. -/
theorem find_registerService (self : ServiceManager) (service : Service) (serviceName : Bytes) :
    (self.registerService (some service)).2.find serviceName =
      if self.find service.getServiceName = none ∧ service.getServiceName = serviceName then
        some service
      else self.find serviceName := by
  by_cases hnew : self.find service.getServiceName = none
  · rw [find, registerService_new hnew]
    by_cases hname : service.getServiceName = serviceName
    · rw [if_pos ⟨hnew, hname⟩]
      simp [hname]
    · rw [if_neg fun h ↦ hname h.2]
      simp [hname, find]
  · rw [registerService, dif_neg hnew, if_neg fun h ↦ hnew h.1]

end ServiceManager

end MyRpc
