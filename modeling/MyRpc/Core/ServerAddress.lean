import MyRpc.Library.Decimal
import MyRpc.Registry.ServiceRegistry

/-!
# The address of a server

A server is registered under the text of its address and port, and a client that
connects takes the text apart again.  What a pass of the loop in `Connect` makes
of an address is compared with what it should: an address that announces a
server is dialed, every other one costs the attempt and nothing else
(`connect_iff`).
-/

namespace MyRpc.RpcClient

open FixedWidth Decimal

def colon : UInt8 := 58

/-- `isspace` of the "C" locale. -/
def isSpace (b : UInt8) : Bool := b = 32 ∨ 9 ≤ b ∧ b ≤ 13

inductive StoiError
  | invalidArgument
  | outOfRange
  deriving DecidableEq, Repr

/-- The optional sign of a number, and what follows it. -/
def takeSign : Bytes → Bool × Bytes
  | 45 :: text => (true, text)
  | 43 :: text => (false, text)
  | text => (false, text)

/-- `std::stoi`, which ignores what stands behind the digits. -/
def stoi (text : Bytes) : Except StoiError ℤ :=
  let (negative, text) := takeSign (text.dropWhile isSpace)
  let digits := text.takeWhile isDigit
  if digits = [] then .error .invalidArgument
  else
    let n : ℤ := if negative then -(value digits : ℤ) else value digits
    if -2 ^ 31 ≤ n ∧ n < 2 ^ 31 then .ok n else .error .outOfRange

structure RegistryInfo where
  address : Bytes
  port : UInt16
  deriving DecidableEq, Repr

/-- `node.address + ":" + std::to_string(node.port)`. -/
def serviceAddress (node : RegistryInfo) : Bytes :=
  node.address ++ colon :: decimal node.port.toNat

/-- What became of an attempt: no socket, or one for this address and port. -/
inductive Try
  | skipped
  | tried (ip : Bytes) (port : UInt16)
  deriving DecidableEq, Repr

/-- The members `server_ip_`, `server_port_`, `retry_times_` and `is_connected_`,
and what became of the attempts so far. -/
structure Client where
  serverIp : Bytes
  serverPort : ℤ
  retryTimes : ℤ
  isConnected : Bool
  history : List Try
  deriving DecidableEq, Repr

/-- What an attempt meets: the answer of `getServer`, and the addresses at which
`socket`, `inet_pton` and `connect` would succeed. -/
structure Attempt where
  serverAddress : Bytes
  accepts : Bytes → UInt16 → Bool

namespace Client

def record (c : Client) (t : Try) : Client := { c with history := c.history ++ [t] }

/-- `inet_pton` takes a C string, and `htons` the low 16 bits of the port. -/
def initSocket (c : Client) (a : Attempt) : Bool × Client :=
  let ip := ServiceRegistry.cStr c.serverIp
  let port := UInt16.ofInt c.serverPort
  (a.accepts ip port, c.record (.tried ip port))

/-- One pass of the loop in `Connect`. -/
def attempt (c : Client) (a : Attempt) : Except StoiError Bool × Client :=
  if a.serverAddress = [] then (.ok false, c.record .skipped)
  else
    match a.serverAddress.findIdx? (· = colon) with
    | none => (.ok false, c.record .skipped)
    | some colonPos =>
        let c := { c with serverIp := a.serverAddress.take colonPos }
        match stoi (a.serverAddress.drop (colonPos + 1)) with
        | .error e => (.error e, c)
        | .ok serverPort =>
            match { c with serverPort }.initSocket a with
            | (true, c) => (.ok true, { c with isConnected := true })
            | (false, c) => (.ok false, c)

def attempts (c : Client) : List Attempt → Except StoiError Bool × Client
  | [] => (.ok false, c)
  | a :: rest =>
      match c.attempt a with
      | (.ok true, c) => (.ok true, c)
      | (.ok false, c) => c.attempts rest
      | (.error e, c) => (.error e, c)

/-- What the passes of the loop meet, by the number of the retry. -/
def met (c : Client) (net : ℕ → Attempt) : List Attempt :=
  (List.range c.retryTimes.toNat).map net

def connect (c : Client) (net : ℕ → Attempt) : Except StoiError Bool × Client :=
  if c.isConnected then (.ok true, c) else c.attempts (c.met net)

end Client

/-! ## What an address should do -/

/-- The address is the one under which the node is registered. -/
def Announces (address : Bytes) (node : RegistryInfo) : Prop :=
  address = serviceAddress node ∧ node.port ≠ 0

/-- The client behind an attempt on the node. -/
def Client.dial (c : Client) (node : RegistryInfo) : Client :=
  { c with
    serverIp := node.address
    serverPort := node.port.toNat
    history := c.history ++ [.tried node.address node.port] }

/-- The passes of the loop as they should be. -/
inductive Meets : List Attempt → Client → Bool → Client → Prop
  | exhausted (c : Client) : Meets [] c false c
  | ignored {a : Attempt} {rest : List Attempt} {c c' : Client} {ok : Bool}
      (hnone : ∀ node, ¬ Announces a.serverAddress node)
      (hrest : Meets rest (c.record .skipped) ok c') : Meets (a :: rest) c ok c'
  | refused {a : Attempt} {rest : List Attempt} {c c' : Client} {ok : Bool} {node : RegistryInfo}
      (hnode : Announces a.serverAddress node)
      (hrefused : a.accepts node.address node.port = false)
      (hrest : Meets rest (c.dial node) ok c') : Meets (a :: rest) c ok c'
  | reached {a : Attempt} {rest : List Attempt} {c : Client} {node : RegistryInfo}
      (hnode : Announces a.serverAddress node)
      (hreached : a.accepts node.address node.port = true) :
      Meets (a :: rest) c true { c.dial node with isConnected := true }

/-- `Connect` returns a bool, and does what it should with every address. -/
def Connects (c : Client) (net : ℕ → Attempt) : Prop :=
  ∃ ok c', c.connect net = (.ok ok, c') ∧
    if c.isConnected = true then ok = true ∧ c' = c else Meets (c.met net) c ok c'

/-- An address without a colon, or the address of a node whose own address has
neither a colon nor a NUL. -/
def Fine (address : Bytes) : Prop :=
  colon ∉ address ∨
    ∃ node, Announces address node ∧ colon ∉ node.address ∧ 0 ∉ node.address

/-- The attempt is on an address that announces a server, which is there. -/
def Attempt.Succeeds (a : Attempt) : Prop :=
  ∃ node, Announces a.serverAddress node ∧ a.accepts node.address node.port = true

/-- The addresses up to the first attempt that succeeds. -/
def AllFine : List Attempt → Prop
  | [] => True
  | a :: rest => Fine a.serverAddress ∧ (¬ a.Succeeds → AllFine rest)

/-! ## Taking an address apart -/

theorem isSpace_of_isDigit {b : UInt8} (h : isDigit b = true) : isSpace b = false := by
  simp only [isDigit, decide_eq_true_eq] at h
  simp only [isSpace, decide_eq_false_iff_not]
  rintro (rfl | ⟨-, hle⟩)
  · exact absurd h.1 (by decide)
  · exact absurd (UInt8.le_trans h.1 hle) (by decide)

theorem takeSign_of_isDigit {b : UInt8} {rest : Bytes} (h : isDigit b = true) :
    takeSign (b :: rest) = (false, b :: rest) := by
  unfold takeSign
  split
  · rename_i heq
    cases heq
    cases h
  · rename_i heq
    cases heq
    cases h
  · rfl

theorem stoi_decimal {n : ℕ} (h : n < 2 ^ 31) : stoi (decimal n) = .ok n := by
  obtain ⟨b, rest, htext⟩ := List.exists_cons_of_ne_nil (decimal_ne_nil n)
  have hdigit : isDigit b = true := isDigit_of_mem_decimal (htext ▸ List.mem_cons_self)
  have hspace : (decimal n).dropWhile isSpace = decimal n := by
    rw [htext, List.dropWhile_cons_of_neg (by simp [isSpace_of_isDigit hdigit])]
  have hsign : takeSign (decimal n) = (false, decimal n) := by
    rw [htext]
    exact takeSign_of_isDigit hdigit
  have hrange : -2 ^ 31 ≤ (n : ℤ) ∧ (n : ℤ) < 2 ^ 31 := by omega
  simp only [stoi, hspace, hsign, takeWhile_decimal, decimal_ne_nil, value_decimal, if_false,
    Bool.false_eq_true, if_pos hrange]

theorem colon_not_mem_decimal (n : ℕ) : colon ∉ decimal n :=
  fun h ↦ absurd (isDigit_of_mem_decimal h) (by decide)

theorem findIdx?_eq_none {address : Bytes} (h : colon ∉ address) :
    address.findIdx? (· = colon) = none := by
  rw [List.findIdx?_eq_none_iff]
  exact fun b hb ↦ decide_eq_false fun heq ↦ h (heq ▸ hb)

theorem findIdx?_colon {ip : Bytes} (text : Bytes) (h : colon ∉ ip) :
    (ip ++ colon :: text).findIdx? (· = colon) = some ip.length := by
  rw [List.findIdx?_append, findIdx?_eq_none h]
  simp [List.findIdx?_cons]

theorem cut_unique {ip ip' text text' : Bytes} (h : colon ∉ ip) (h' : colon ∉ ip')
    (heq : ip ++ colon :: text = ip' ++ colon :: text') : ip = ip' := by
  have hlen : ip.length = ip'.length := by
    have hfind := findIdx?_colon text h
    rw [heq, findIdx?_colon text' h'] at hfind
    exact (Option.some.inj hfind).symm
  exact (List.append_inj heq hlen).1

/-- The last colon of an address stands in front of the port. -/
theorem serviceAddress_injective : Function.Injective serviceAddress := by
  intro node node' h
  have hcut : (decimal node.port.toNat).reverse = (decimal node'.port.toNat).reverse := by
    have hreverse := congrArg List.reverse h
    simp only [serviceAddress, List.reverse_append, List.reverse_cons, List.append_assoc,
      List.singleton_append] at hreverse
    exact cut_unique (fun hmem ↦ colon_not_mem_decimal _ (List.mem_reverse.mp hmem))
      (fun hmem ↦ colon_not_mem_decimal _ (List.mem_reverse.mp hmem)) hreverse
  have hport : node.port = node'.port :=
    UInt16.toNat_inj.mp (decimal_injective (List.reverse_injective hcut))
  have haddress : node.address = node'.address := by
    unfold serviceAddress at h
    rw [hport] at h
    exact List.append_cancel_right h
  cases node
  cases node'
  exact congr (congrArg RegistryInfo.mk haddress) hport

theorem ne_nil_of_colon {ip text : Bytes} : ip ++ colon :: text ≠ [] := by simp

theorem colon_mem_of_announces {address : Bytes} {node : RegistryInfo}
    (h : Announces address node) : colon ∈ address := by
  rw [h.1]
  exact List.mem_append_right _ List.mem_cons_self

namespace Client

/-! ## One attempt -/

theorem attempt_ignored (c : Client) {a : Attempt} (h : colon ∉ a.serverAddress) :
    c.attempt a = (.ok false, c.record .skipped) := by
  unfold attempt
  rw [findIdx?_eq_none h]
  exact ite_self _

theorem attempt_colon (c : Client) {a : Attempt} {ip text : Bytes}
    (haddress : a.serverAddress = ip ++ colon :: text) (hip : colon ∉ ip) :
    c.attempt a =
      match stoi text with
      | .error e => (.error e, { c with serverIp := ip })
      | .ok serverPort =>
          let ok := a.accepts (ServiceRegistry.cStr ip) (UInt16.ofInt serverPort)
          (.ok ok,
            { c with
              serverIp := ip
              serverPort
              isConnected := c.isConnected || ok
              history := c.history ++
                [.tried (ServiceRegistry.cStr ip) (UInt16.ofInt serverPort)] }) := by
  have htext : (ip ++ colon :: text).drop (ip.length + 1) = text := by
    rw [← List.drop_drop, List.drop_left]
    rfl
  unfold attempt
  rw [haddress, if_neg ne_nil_of_colon, findIdx?_colon text hip]
  simp only [List.take_left, htext]
  cases stoi text with
  | error e => rfl
  | ok serverPort =>
      simp only [initSocket, record]
      cases a.accepts (ServiceRegistry.cStr ip) (UInt16.ofInt serverPort) with
      | false => simp
      | true => simp

theorem ofInt_toNat (port : UInt16) : UInt16.ofInt port.toNat = port := by
  have hmod : ((port.toNat : ℤ) % 2 ^ 16).toNat = port.toNat := by
    have hlt := port.toNat_lt
    omega
  rw [UInt16.ofInt, hmod, UInt16.ofNat_toNat]

theorem attempt_announced (c : Client) {a : Attempt} {node : RegistryInfo}
    (hnode : Announces a.serverAddress node) (hcolon : colon ∉ node.address)
    (hnul : 0 ∉ node.address) :
    c.attempt a = (.ok (a.accepts node.address node.port),
      { c.dial node with isConnected := c.isConnected || a.accepts node.address node.port }) := by
  have hport : node.port.toNat < 2 ^ 31 := node.port.toNat_lt.trans (by decide)
  rw [c.attempt_colon hnode.1 hcolon, stoi_decimal hport]
  simp only [ServiceRegistry.cStr_eq_self hnul, ofInt_toNat]
  rfl

/-- An attempt on an address with a colon ends in an exception, or it has tried something. -/
theorem attempt_tried {c c' : Client} {a : Attempt} {ip text : Bytes} {ok : Bool}
    (haddress : a.serverAddress = ip ++ colon :: text) (hip : colon ∉ ip)
    (h : c.attempt a = (.ok ok, c')) :
    ∃ port, c'.history = c.history ++ [.tried (ServiceRegistry.cStr ip) port] := by
  rw [c.attempt_colon haddress hip] at h
  cases hstoi : stoi text with
  | error e =>
      rw [hstoi] at h
      cases h
  | ok serverPort =>
      rw [hstoi] at h
      cases h
      exact ⟨_, rfl⟩

theorem history_attempt (c : Client) (a : Attempt) : c.history <+: (c.attempt a).2.history := by
  by_cases hcolon : colon ∈ a.serverAddress
  · obtain ⟨ip, text, haddress, hip⟩ := List.eq_append_cons_of_mem hcolon
    rw [c.attempt_colon haddress hip]
    cases stoi text with
    | error e => exact List.prefix_rfl
    | ok serverPort => exact List.prefix_append _ _
  · rw [c.attempt_ignored hcolon]
    exact List.prefix_append _ _

theorem history_attempts (c : Client) (l : List Attempt) :
    c.history <+: (c.attempts l).2.history := by
  induction l generalizing c with
  | nil => exact List.prefix_rfl
  | cons a rest ih =>
      have hfirst := c.history_attempt a
      unfold attempts
      match c.attempt a, hfirst with
      | (.ok true, _), hfirst => exact hfirst
      | (.ok false, c'), hfirst => exact hfirst.trans (ih c')
      | (.error _, _), hfirst => exact hfirst

/-! ## The loop -/

theorem attempts_tried {c c' : Client} {a : Attempt} {rest : List Attempt} {ip text : Bytes}
    {ok : Bool} (haddress : a.serverAddress = ip ++ colon :: text) (hip : colon ∉ ip)
    (h : c.attempts (a :: rest) = (.ok ok, c')) :
    ∃ port, c.history ++ [.tried (ServiceRegistry.cStr ip) port] <+: c'.history := by
  unfold attempts at h
  match hattempt : c.attempt a, h with
  | (.ok true, c₁), h =>
      obtain ⟨port, hport⟩ := attempt_tried haddress hip hattempt
      cases h
      exact ⟨port, hport ▸ List.prefix_rfl⟩
  | (.ok false, c₁), h =>
      obtain ⟨port, hport⟩ := attempt_tried haddress hip hattempt
      have hrest := c₁.history_attempts rest
      rw [show c₁.attempts rest = (.ok ok, c') from h, hport] at hrest
      exact ⟨port, hrest⟩
  | (.error e, c₁), h => cases h

theorem history_meets {l : List Attempt} {c c' : Client} {ok : Bool} (h : Meets l c ok c') :
    c.history <+: c'.history := by
  induction h with
  | exhausted c => exact List.prefix_rfl
  | ignored _ _ ih => exact (List.prefix_append _ _).trans ih
  | refused _ _ _ ih => exact (List.prefix_append _ _).trans ih
  | reached _ _ => exact List.prefix_append _ _

theorem try_unique {l l' : List Try} {t t' : Try} (h : l ++ [t] <+: l') (h' : l ++ [t'] <+: l') :
    t = t' := by
  have hprefix := List.prefix_of_prefix_length_le h h' (by simp)
  have heq := hprefix.eq_of_length (by simp)
  simpa using heq

/-- If the code tried what it should, the address is fine. -/
theorem fine_of_tried {c c' : Client} {a : Attempt} {rest : List Attempt} {ok : Bool}
    {node : RegistryInfo} (hnode : Announces a.serverAddress node)
    (hcode : c.attempts (a :: rest) = (.ok ok, c'))
    (htried : c.history ++ [.tried node.address node.port] <+: c'.history) :
    colon ∉ node.address ∧ 0 ∉ node.address := by
  obtain ⟨ip, text, haddress, hip⟩ :=
    List.eq_append_cons_of_mem (colon_mem_of_announces hnode)
  obtain ⟨port, hport⟩ := attempts_tried haddress hip hcode
  have hcStr : ServiceRegistry.cStr ip = node.address := by
    have heq := try_unique hport htried
    injection heq
  have hcolon : colon ∉ node.address := by
    rw [← hcStr]
    exact fun hmem ↦ hip ((List.takeWhile_prefix _).subset hmem)
  have hsame : ip = node.address := cut_unique hip hcolon (haddress.symm.trans hnode.1)
  refine ⟨hcolon, fun hnul ↦ ?_⟩
  rw [← hcStr] at hnul
  exact absurd (List.mem_takeWhile_imp hnul) (by decide)

theorem allFine_of_meets {l : List Attempt} {c c' : Client} {ok : Bool}
    (hcode : c.attempts l = (.ok ok, c')) (h : Meets l c ok c') : AllFine l := by
  induction h with
  | exhausted c => exact trivial
  | @ignored a rest c c' ok hnone hrest ih =>
      by_cases hcolon : colon ∈ a.serverAddress
      · obtain ⟨ip, text, haddress, hip⟩ := List.eq_append_cons_of_mem hcolon
        obtain ⟨port, hport⟩ := attempts_tried haddress hip hcode
        exact absurd (try_unique hport (history_meets hrest)) (by simp)
      · unfold attempts at hcode
        rw [c.attempt_ignored hcolon] at hcode
        exact ⟨.inl hcolon, fun _ ↦ ih hcode⟩
  | @refused a rest c c' ok node hnode hrefused hrest ih =>
      obtain ⟨hcolon, hnul⟩ := fine_of_tried hnode hcode (history_meets hrest)
      unfold attempts at hcode
      rw [c.attempt_announced hnode hcolon hnul, hrefused, Bool.or_false] at hcode
      exact ⟨.inr ⟨node, hnode, hcolon, hnul⟩, fun _ ↦ ih hcode⟩
  | @reached a rest c node hnode hreached =>
      obtain ⟨hcolon, hnul⟩ := fine_of_tried hnode hcode List.prefix_rfl
      exact ⟨.inr ⟨node, hnode, hcolon, hnul⟩, fun h ↦ absurd ⟨node, hnode, hreached⟩ h⟩

theorem meets_of_allFine {l : List Attempt} (c : Client) (h : AllFine l) :
    ∃ ok c', c.attempts l = (.ok ok, c') ∧ Meets l c ok c' := by
  induction l generalizing c with
  | nil => exact ⟨false, c, rfl, .exhausted c⟩
  | cons a rest ih =>
      obtain ⟨hfine, hrest⟩ := h
      unfold attempts
      rcases hfine with hcolon | ⟨node, hnode, hcolon, hnul⟩
      · have hnone : ∀ node, ¬ Announces a.serverAddress node :=
          fun node hnode ↦ hcolon (colon_mem_of_announces hnode)
        have hnever : ¬ a.Succeeds := fun ⟨node, hnode, _⟩ ↦ hnone node hnode
        obtain ⟨ok, c', hcode, hmeets⟩ := ih (c.record .skipped) (hrest hnever)
        rw [c.attempt_ignored hcolon]
        exact ⟨ok, c', hcode, .ignored hnone hmeets⟩
      · rw [c.attempt_announced hnode hcolon hnul]
        cases haccepts : a.accepts node.address node.port with
        | true =>
            rw [Bool.or_true]
            exact ⟨true, _, rfl, .reached hnode haccepts⟩
        | false =>
            have hnever : ¬ a.Succeeds := by
              rintro ⟨node', hnode', haccepts'⟩
              have hsame := serviceAddress_injective (hnode.1.symm.trans hnode'.1)
              rw [← hsame, haccepts] at haccepts'
              cases haccepts'
            obtain ⟨ok, c', hcode, hmeets⟩ := ih (c.dial node) (hrest hnever)
            rw [Bool.or_false]
            exact ⟨ok, c', hcode, .refused hnode haccepts hmeets⟩

theorem isConnected_attempt {c : Client} (a : Attempt) (h : c.isConnected = false) :
    (c.attempt a).2.isConnected = true ↔ (c.attempt a).1 = .ok true := by
  by_cases hcolon : colon ∈ a.serverAddress
  · obtain ⟨ip, text, haddress, hip⟩ := List.eq_append_cons_of_mem hcolon
    rw [c.attempt_colon haddress hip]
    cases stoi text with
    | error e => simp [h]
    | ok serverPort => simp [h]
  · rw [c.attempt_ignored hcolon]
    simp [record, h]

theorem isConnected_attempts {c : Client} (l : List Attempt) (h : c.isConnected = false) :
    (c.attempts l).2.isConnected = true ↔ (c.attempts l).1 = .ok true := by
  induction l generalizing c with
  | nil => simp [attempts, h]
  | cons a rest ih =>
      have hfirst := isConnected_attempt a h
      unfold attempts
      match hattempt : c.attempt a with
      | (.ok true, c₁) =>
          rw [hattempt] at hfirst
          exact hfirst
      | (.ok false, c₁) =>
          rw [hattempt] at hfirst
          have hnot : c₁.isConnected = false := by simpa using hfirst
          exact ih hnot
      | (.error e, c₁) =>
          rw [hattempt] at hfirst
          simpa using hfirst

/-- A client is connected when `Connect` has returned true, and only then. -/
theorem isConnected_connect (c : Client) (net : ℕ → Attempt) :
    (c.connect net).2.isConnected = true ↔ (c.connect net).1 = .ok true := by
  unfold connect
  by_cases h : c.isConnected = true
  · simp [h]
  · rw [if_neg h]
    exact isConnected_attempts _ (Bool.eq_false_iff.mpr h)

/-- **When `Connect` deals with addresses as it should.**  It returns a bool,
dials exactly the servers that are announced and gives every other address one
attempt, exactly when each address it comes to has no colon, or is the address
of a node whose own address has neither a colon nor a NUL. -/
theorem connect_iff (c : Client) (net : ℕ → Attempt) :
    Connects c net ↔ c.isConnected = true ∨ AllFine (c.met net) := by
  unfold Connects connect
  by_cases hconnected : c.isConnected = true
  · simp [hconnected]
  · simp only [hconnected, if_false, Bool.false_eq_true, false_or]
    constructor
    · rintro ⟨ok, c', hcode, hmeets⟩
      exact allFine_of_meets hcode hmeets
    · exact meets_of_allFine c

/-- A client that has not connected yet. -/
def fresh : Client := ⟨[], 0, 3, false, []⟩

/-- "10.0.0.1:http", and behind it an address that would do. -/
def named (retry : ℕ) : Attempt where
  serverAddress := [49, 48, 46, 48, 46, 48, 46, 49, 58] ++
    if retry = 0 then [104, 116, 116, 112] else [56, 48]
  accepts _ _ := true

theorem not_connects_named :
    (fresh.connect named).1 = .error .invalidArgument ∧ ¬ Connects fresh named := by
  have hthrows : (fresh.connect named).1 = .error .invalidArgument := by decide
  refine ⟨hthrows, ?_⟩
  rintro ⟨ok, c', hcode, -⟩
  rw [hcode] at hthrows
  cases hthrows

end Client

end MyRpc.RpcClient
