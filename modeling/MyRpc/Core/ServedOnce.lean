import MyRpc.Core.Serving

/-!
# Each request once, and its own result

What a client of the server may rely on: a call is served once at most, with the
request it was made with, and what it returns is what the service manager returned
then.
-/

namespace MyRpc.EndToEnd

open FixedWidth ZstdCompress PartialRun Connection MessageCycle
open RpcClient (CallArgs CallEnv Service System)

variable {z : Zstd} {heap : Heap} {v : Service} {s s' : Net}

/-! ## Runs -/

section Runs

variable {fd : ℕ} {table : ℤ → Option Descriptors.File} {trace : List (Net × Event)} {last : Net}

theorem owner_step {e : Event} (hstep : s.step z heap v e = some s') : s.owner <+: s'.owner := by
  cases e with
  | client a n =>
      simp only [Net.step, Option.bind_eq_some_iff, Option.map_eq_some_iff] at hstep
      obtain ⟨u, hreceive, session, -, rfl⟩ := hstep
      rw [(transmit_frame (z := z) (s := u) session a n).2.2.2, receive_eq hreceive]
  | accept fd c =>
      simp only [Net.step, Option.ite_none_right_eq_some, Option.map_eq_some_iff] at hstep
      obtain ⟨-, server, -, rfl⟩ := hstep
      exact List.prefix_rfl
  | server act =>
      simp only [Net.step, Option.bind_eq_some_iff, Option.map_eq_some_iff] at hstep
      obtain ⟨u, htransfer, server, -, rfl⟩ := hstep
      rw [(transfer_eq htransfer).1, Net.record]
      split
      · exact List.prefix_rfl
      · exact List.prefix_append _ _

theorem owner_run {start : Net} (hrun : Run (Net.step z heap v) start trace last) :
    start.owner <+: last.owner :=
  hrun.invariant (fun s ↦ start.owner <+: s.owner) List.prefix_rfl fun _ _ _ _ h hstep ↦
    h.trans (owner_step hstep)

/-- The task that is for a call, as the whole run tells. -/
def place (last : Net) (call : ℕ) : ℕ := last.owner.idxOf (some call)

theorem place_of_append {call : ℕ} (hnew : s'.owner = s.owner ++ [some call])
    (hlater : s'.owner <+: last.owner) (hfresh : some call ∉ s.owner) :
    place last call = s.owner.length := by
  obtain ⟨rest, hrest⟩ := hlater
  rw [place, ← hrest, hnew, List.append_assoc, List.idxOf_append_of_notMem hfresh]
  simp

theorem refines_start (z : Zstd) (heap : Heap) (v : Service) (place : ℕ → ℕ) (fd : ℕ)
    (table : ℤ → Option Descriptors.File) :
    Refines z heap v place [] (.start fd table) (.start fd) where
  owned _ _ _ h := by simp [Net.start] at h
  foreign _ _ h := by simp [Net.start] at h
  answered _ _ h := by cases h
  unopened _ _ := .nothing
  opened _ _ _ h := by cases h
  up_nil _ _ := rfl
  session := rfl
  pipe := rfl
  called _ _ h := by cases h

theorem refines_run (hz : RejectsPrefixes z) (hv : v.Refusable z heap)
    (hcarried : ∀ s args env n, (s, .client (.call args env) n) ∈ trace →
      Carried z heap (s.session.request args))
    (hrun : Run (Net.step z heap v) (.start fd table) trace last) :
    ∃ trace' t, Run (System.step z heap (ofTasks v (place last))) (.start fd) trace' t ∧
      Wired last ∧ Refines z heap v (place last) trace last t := by
  have hv' : (ofTasks v (place last)).Refusable z heap := fun call request ↦ hv _ request
  refine hrun.simulation (fun before s t ↦ Wired s ∧ Refines z heap v (place last) before s t)
    ⟨wired_start fd table, refines_start z heap v _ fd table⟩ ?_
  intro before s e s' after trace' t hbefore hstep hafter htrace hrun' ⟨hwired, h⟩
  have hinv := RpcClient.inv_run hz hv' hrun'
  have hwired' := wired_step hwired hstep
  suffices hfollows : Follows (System.step z heap (ofTasks v (place last)))
      (Refines z heap v (place last) (before ++ [(s, e)]) s') t from
    hfollows.imp fun _ hrefines ↦ ⟨hwired', hrefines⟩
  cases e with
  | client a n =>
      have hall : ∀ args env, a = .call args env → Carried z heap (s.session.request args) := by
        rintro args env rfl
        exact hcarried s args env n (by simp [htrace])
      obtain ⟨t', hmatched, hrefines⟩ := refines_client hwired h hinv hall hstep
      exact .inr ⟨_, t', hmatched, hrefines⟩
  | accept fd c => exact .inl (refines_accept hwired h hstep)
  | server act =>
      refine refines_server hz hwired h hstep fun call hnew hfresh ↦ ?_
      rw [place_of_append hnew (owner_run hafter) hfresh, hwired.length_owner]

/-- **The bytes do what the exchanges do.**  Each run of the client, the server and
the bytes between them is a run of the exchanges of requests and responses, with
the same session and the same bytes on their way to the client; each exchange is
the request of its call, and is dispatched there exactly if it is here. -/
theorem exchanged (hz : RejectsPrefixes z) (hv : v.Refusable z heap)
    (hcarried : ∀ s args env n, (s, .client (.call args env) n) ∈ trace →
      Carried z heap (s.session.request args))
    (hrun : Run (Net.step z heap v) (.start fd table) trace last) :
    ∃ place trace' t, Run (System.step z heap (ofTasks v place)) (.start fd) trace' t ∧
      t.session = last.session ∧ t.pipe = last.down ∧
        ∀ call e, t.exchange call = some e → Called trace call e.request ∧
          (e.answered ≠ none ↔ some call ∈ last.owner) := by
  obtain ⟨trace', t, hrun', hwired, h⟩ := refines_run hz hv hcarried hrun
  refine ⟨place last, trace', t, hrun', h.session, h.pipe, fun call e he ↦
    ⟨h.called call e he, h.answered call e he, fun hmem ↦ ?_⟩⟩
  obtain ⟨i, hi⟩ := List.mem_iff_getElem?.mp hmem
  have hlt : i < last.server.tasks.length := by
    rw [← hwired.length_owner]
    exact (List.getElem?_eq_some_iff.mp hi).1
  obtain ⟨-, k, m, hexchange, -⟩ := h.owned i call _ hi (List.getElem?_eq_getElem hlt)
  rw [hexchange, Option.some.injEq] at he
  rw [← he]
  exact Option.some_ne_none m

/-- What a client may rely on: a task that is for one of its calls has the call's
own request, no call has two tasks, and a call that returned true has one, and has
returned what the service manager gave for it. -/
structure ServedOnce (z : Zstd) (heap : Heap) (v : Service) (trace : List (Net × Event))
    (last : Net) : Prop where
  request : ∀ (i call : ℕ), last.owner[i]? = some (some call) →
    ∃ task, last.server.tasks[i]? = some task ∧ Called trace call task.request
  once : ∀ (i j call : ℕ), last.owner[i]? = some (some call) →
    last.owner[j]? = some (some call) → i = j
  result : ∀ entry ∈ last.session.log, ∃ (i : ℕ) (task : Descriptors.Task),
    last.owner[i]? = some (some entry.call) ∧ last.server.tasks[i]? = some task ∧
      task.request.sequenceId = entry.sequenceId ∧
        (RoundTrips z (v.response i task.request).serialize →
          heap.Grants (v.response i task.request).serialize.length →
            entry.response = v.response i task.request)

/-- **Each request once, and its own result**, whatever the event loop does for
other clients, however the bytes arrive, and however long the workers take. -/
theorem served_once (hz : RejectsPrefixes z) (hv : v.Refusable z heap)
    (hcarried : ∀ s args env n, (s, .client (.call args env) n) ∈ trace →
      Carried z heap (s.session.request args))
    (hrun : Run (Net.step z heap v) (.start fd table) trace last) :
    ServedOnce z heap v trace last := by
  obtain ⟨trace', t, hrun', hwired, h⟩ := refines_run hz hv hcarried hrun
  have hv' : (ofTasks v (place last)).Refusable z heap := fun call request ↦ hv _ request
  have hinv := RpcClient.inv_run hz hv' hrun'
  have htask : ∀ (i : ℕ) (entry : Option ℕ), last.owner[i]? = some entry →
      ∃ task, last.server.tasks[i]? = some task := by
    intro i entry hi
    have hlt : i < last.server.tasks.length := by
      rw [← hwired.length_owner]
      exact (List.getElem?_eq_some_iff.mp hi).1
    exact ⟨_, List.getElem?_eq_getElem hlt⟩
  refine ⟨fun i call hi ↦ ?_, fun i j call hi hj ↦ ?_, fun entry hentry ↦ ?_⟩
  · obtain ⟨task, hi'⟩ := htask i _ hi
    obtain ⟨-, k, m, hexchange, -⟩ := h.owned i call task hi hi'
    exact ⟨task, hi', h.called call _ hexchange⟩
  · obtain ⟨task, hi'⟩ := htask i _ hi
    obtain ⟨task', hj'⟩ := htask j _ hj
    exact (h.owned i call task hi hi').place_eq.symm.trans (h.owned j call task' hj hj').place_eq
  · rw [← h.session] at hentry
    have hanswered := hinv.answered entry hentry
    obtain ⟨e, frame, he, hcomplete, hid, -⟩ := id hanswered
    have hmem : some entry.call ∈ last.owner := by
      refine h.answered entry.call e he ?_
      rw [hcomplete]
      exact Option.some_ne_none _
    obtain ⟨i, hi⟩ := List.mem_iff_getElem?.mp hmem
    obtain ⟨task, hi'⟩ := htask i _ hi
    obtain ⟨hplace, k, m, hexchange, -⟩ := h.owned i entry.call task hi hi'
    obtain rfl := Option.some.inj (he.symm.trans hexchange)
    have hsame : (ofTasks v (place last)).response entry.call task.request =
        v.response i task.request := hplace ▸ rfl
    refine ⟨i, task, hi, hi', hid, fun hround hheap ↦ ?_⟩
    rw [← hsame] at hround hheap ⊢
    exact hanswered.response_eq he hround hheap

end Runs

/-! ## Two clients -/

open StoredFrames
open RpcClient (pingArgs sentEnv echo pingRequest)

theorem carried_stored {request : RpcRequest} (h : request.bodySize < 2 ^ 32) :
    Carried stored gibibyteHeap request where
  bodySize_lt := h
  roundTrips := stored_roundTrips _
  truncations := by
    intro compressed n hcompress hlong
    obtain ⟨hlen, rfl⟩ := compress_eq_some hcompress
    rw [length_storedFrame] at hlong
    omega

def requestBytes : Bytes := (RpcClient.Session.start 3).requestWire stored pingArgs sentEnv

def echoBytes : Bytes := echo.wire stored 1 (pingRequest 1)

/-- The request arrives in two parts, and the same request of another client in
between; both are answered at the same time. -/
def shared : List Event :=
  [.client (.call pingArgs sentEnv) 0, .accept 3 none, .server (.setUp true),
    .server (.register true), .accept 4 (some 0), .server (.setUp true), .server (.register true),
    .server (.readable 4), .server (.read (.bytes (requestBytes.take 50))), .server .extract,
    .server (.readable 3), .server (.read (.bytes Message.pingWire)), .server .extract,
    .server .extract, .server (.readable 4), .server (.read (.bytes (requestBytes.drop 50))),
    .server .extract, .server .extract, .server (.begin 0), .server (.begin 1),
    .server (.respond 1 echoBytes.length), .server (.write 1 (.wrote 5)),
    .client (.read (.bytes (echoBytes.take 5))) 0, .client (.extract true) 0,
    .server (.respond 0 echoBytes.length), .server (.write 0 (.wrote echoBytes.length)),
    .server (.write 1 (.wrote (echoBytes.length - 5))),
    .client (.read (.bytes (echoBytes.drop 5))) 0, .client (.extract true) 0]

def sharedRun : List (Net × Event) × Net :=
  executed (Net.step stored gibibyteHeap echo) (.start 3 Descriptors.standardFiles) shared

theorem isSome_shared : (execute (Net.step stored gibibyteHeap echo)
    (.start 3 Descriptors.standardFiles) shared).isSome = true := by
  decide +kernel

theorem carried_shared (s : Net) (args : CallArgs) (env : CallEnv) (n : ℕ)
    (hmem : (s, Event.client (.call args env) n) ∈ sharedRun.1) :
    Carried stored gibibyteHeap (s.session.request args) := by
  obtain ⟨⟨rfl, -⟩, -⟩ : (args = pingArgs ∧ env = sentEnv) ∧ n = 0 := by
    simpa [shared] using Run.mem_of_mem_executed isSome_shared hmem
  have hbody : (s.session.request pingArgs).bodySize = 15 := rfl
  exact carried_stored (by rw [hbody]; norm_num)

theorem exchanged_shared : ∃ place trace' t,
    Run (System.step stored gibibyteHeap (ofTasks echo place)) (.start 3) trace' t ∧
      t.session = sharedRun.2.session ∧ t.pipe = sharedRun.2.down ∧
        ∀ call e, t.exchange call = some e → Called sharedRun.1 call e.request ∧
          (e.answered ≠ none ↔ some call ∈ sharedRun.2.owner) :=
  exchanged stored_rejectsPrefixes RpcClient.echo_refusable carried_shared
    (Run.of_isSome isSome_shared)

theorem served_once_shared : sharedRun.2.owner = [none, some 1] ∧
    sharedRun.2.session.log = [⟨1, 1, echo.response 1 (pingRequest 1)⟩] ∧
      ServedOnce stored gibibyteHeap echo sharedRun.1 sharedRun.2 := by
  refine ⟨by decide +kernel, by decide +kernel, ?_⟩
  exact served_once stored_rejectsPrefixes RpcClient.echo_refusable carried_shared
    (Run.of_isSome isSome_shared)

end MyRpc.EndToEnd
