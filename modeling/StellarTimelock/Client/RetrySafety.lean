import StellarTimelock.Client.InvokeContract

/-! When a retryable rejection means that nothing was submitted: unless the
network accepts a transaction whose reply is then lost. -/
namespace SorobanClient

open Transaction

variable {Account Tx Sim Key Value : Type}

/-- Phases 1 to 4 succeed and leave this signed transaction. -/
def Signs (a : Attempt Account Tx Sim Key Value) (signed : Tx) : Prop :=
  ∃ source tx sim assembled key, loadAccount a = .ok source ∧ a.buildTransaction source = .ok tx ∧
    a.simulateTransaction tx = .ok (.success sim) ∧ a.assembleTransaction tx sim = .ok assembled ∧
    a.loadSigningKeypair = .ok (some key) ∧ a.signWith key assembled = .ok signed

/-- The network accepts the transaction and the client does not learn of it. -/
def LosesAcceptance (a : Attempt Account Tx Sim Key Value) : Prop :=
  ∃ signed processed message, Signs a signed ∧
    a.sendTransaction signed = .replyLost processed message ∧ processed.status.accepted = true

theorem rethrow_ok {E α : Type} {f : E → SorobanError} {x : Except E α} {b : α} :
    rethrow f x = .ok b ↔ x = .ok b := by
  cases x with
  | error e =>
      constructor
      · intro h
        cases h
      · intro h
        cases h
  | ok a =>
      constructor
      · intro h
        cases h
        rfl
      · intro h
        cases h
        rfl

theorem prepare_ok_iff {method : String} {a : Attempt Account Tx Sim Key Value} {signed : Tx} :
    prepare method a = .ok signed ↔ Signs a signed := by
  unfold prepare Signs
  simp only [except_bind_ok, rethrow_ok]
  constructor
  · rintro ⟨source, hSource, tx, hTx, reply, hReply, hRest⟩
    cases reply with
    | error message => cases hRest
    | success sim =>
        simp only [except_bind_ok, rethrow_ok] at hRest
        obtain ⟨assembled, hAssembled, key, hKey, hSigned⟩ := hRest
        cases key with
        | none => cases hSigned
        | some key =>
            exact ⟨source, tx, sim, assembled, key, hSource, hTx, hReply, hAssembled, hKey,
              rethrow_ok.mp hSigned⟩
  · rintro ⟨source, tx, sim, assembled, key, hSource, hTx, hReply, hAssembled, hKey, hSigned⟩
    refine ⟨source, hSource, tx, hTx, .success sim, hReply, ?_⟩
    simp only [except_bind_ok, rethrow_ok]
    exact ⟨assembled, hAssembled, some key, hKey, rethrow_ok.mpr hSigned⟩

/-- The call rejects and its error invites a retry. -/
def Outcome.retryable (o : Outcome Value) : Bool :=
  match o.result with
  | .error e => e.retryable
  | .ok _ => false

/-- Nothing that polling finds invites a retry: once a submission was accepted,
no error that follows is retryable. -/
theorem confirm_not_retryable {method txHash : String}
    {getTransaction : Nat → Option (GetReply Value)} {e : SorobanError}
    (h : (confirm method txHash getTransaction).result = .error e) : e.retryable = false := by
  unfold confirm SorobanClient.conclude at h
  split at h
  · cases h
  · cases h
    rfl
  · cases h
    rfl

/-- A retryable submission of an accepted transaction has lost its reply. -/
theorem submit_retryable_accepted_iff (method : String) (a : Attempt Account Tx Sim Key Value)
    (signed : Tx) :
    ((submit method a signed).retryable = true ∧ (submit method a signed).accepted = true) ↔
      ∃ processed message, a.sendTransaction signed = .replyLost processed message ∧
        processed.status.accepted = true := by
  unfold submit
  cases hSent : a.sendTransaction signed with
  | requestLost message => simp
  | replyLost processed message =>
      constructor
      · rintro ⟨_, hAccepted⟩
        exact ⟨processed, message, rfl, hAccepted⟩
      · rintro ⟨_, _, hSame, hAccepted⟩
        cases hSame
        exact ⟨rfl, hAccepted⟩
  | answered reply =>
      simp only [reduceCtorEq, false_and, exists_false, iff_false]
      rintro ⟨hRetry, hAccepted⟩
      -- An answered submission is accepted when it is pending or a duplicate.
      have hFinal (hResult : Outcome Value) (hEnd : hResult.result =
          (confirm method reply.hash (a.getTransaction reply.hash)).result) :
          hResult.retryable = false := by
        unfold Outcome.retryable
        cases hError : hResult.result with
        | ok value => rfl
        | error e => exact confirm_not_retryable (hEnd.symm.trans hError)
      cases hStatus : reply.status with
      | error => simp [hStatus, SendStatus.accepted] at hAccepted
      | duplicate => simp [hStatus, Outcome.retryable, sorobanSendError, SendStatus.text] at hRetry
      | pending =>
          simp only [hStatus] at hRetry
          rw [hFinal _ rfl] at hRetry
          cases hRetry
      | tryAgainLater => simp [hStatus, SendStatus.accepted] at hAccepted

/-- Before phase 5 nothing is accepted, so a call's retryable rejection hides
an accepted transaction exactly when its reply is lost. -/
theorem retryable_accepted_iff (method : String) (a : Attempt Account Tx Sim Key Value) :
    ((invokeContract method a).retryable = true ∧ (invokeContract method a).accepted = true) ↔
      LosesAcceptance a := by
  unfold invokeContract LosesAcceptance
  cases hPrepared : prepare method a with
  | error e =>
      constructor
      · rintro ⟨_, hAccepted⟩
        cases hAccepted
      · rintro ⟨signed, _, _, hSigns, _⟩
        rw [prepare_ok_iff.mpr hSigns] at hPrepared
        cases hPrepared
  | ok signed =>
      have hSigns : Signs a signed := prepare_ok_iff.mp hPrepared
      simp only
      rw [submit_retryable_accepted_iff]
      constructor
      · rintro ⟨processed, message, hSent, hAccepted⟩
        exact ⟨signed, processed, message, hSigns, hSent, hAccepted⟩
      · rintro ⟨other, processed, message, hOther, hSent, hAccepted⟩
        cases hPrepared.symm.trans (prepare_ok_iff.mpr hOther)
        exact ⟨processed, message, hSent, hAccepted⟩

/-- A caller that calls again exactly while the error invites a retry. -/
def retry (method : String) : List (Attempt Account Tx Sim Key Value) → List (Outcome Value)
  | [] => []
  | a :: as =>
      let o := invokeContract method a
      if o.retryable then o :: retry method as else [o]

/-- A call's retryable rejection means that its transaction was not accepted,
if and only if the call does not lose the reply to an accepted submission; and
a caller that retries over calls of that kind has at most one accepted. -/
theorem retry_safe_iff (method : String) :
    (∀ a : Attempt Account Tx Sim Key Value,
      (∀ e, (invokeContract method a).result = .error e → e.retryable = true →
        (invokeContract method a).accepted = false) ↔ ¬ LosesAcceptance a) ∧
    ∀ as : List (Attempt Account Tx Sim Key Value), (∀ a ∈ as, ¬ LosesAcceptance a) →
      ((retry method as).filter (·.accepted)).length ≤ 1 := by
  constructor
  · intro a
    rw [← retryable_accepted_iff method a]
    unfold Outcome.retryable
    cases (invokeContract method a).result with
    | ok value => simp
    | error e => simp
  · intro as hAs
    induction as with
    | nil => exact Nat.zero_le 1
    | cons a as ih =>
        have hRest := ih (fun b hb => hAs b (List.mem_cons_of_mem a hb))
        have hHead : ¬ ((invokeContract method a).retryable = true ∧
            (invokeContract method a).accepted = true) := by
          rw [retryable_accepted_iff]
          exact hAs a List.mem_cons_self
        unfold retry
        simp only
        split_ifs with hRetry
        · have hLost : (invokeContract method a).accepted = false := by
            rw [Bool.eq_false_iff]
            exact fun hAccepted => hHead ⟨hRetry, hAccepted⟩
          rw [List.filter_cons_of_neg (by rw [hLost]; exact Bool.false_ne_true)]
          exact hRest
        · exact List.length_filter_le _ _

/-- Everything works, but the reply to the submission is lost. -/
def lostReply : Attempt Unit Unit Unit Unit Unit where
  fallbacks := 0
  getAccount _ := .ok ()
  buildTransaction _ := .ok ()
  simulateTransaction _ := .ok (.success ())
  assembleTransaction _ _ := .ok ()
  loadSigningKeypair := .ok (some ())
  signWith _ _ := .ok ()
  sendTransaction _ := .replyLost ⟨.pending, "a1", none⟩ "timeout"
  getTransaction _ _ := none

/-- The same when the request is lost on its way, which the client cannot tell
from a lost reply. -/
def lostRequest : Attempt Unit Unit Unit Unit Unit :=
  { lostReply with sendTransaction := fun _ => .requestLost "timeout" }

/-- And when the submission is accepted and its success reported. -/
def heard : Attempt Unit Unit Unit Unit Unit :=
  { lostReply with
    sendTransaction := fun _ => .answered ⟨.pending, "a1", none⟩
    getTransaction := fun _ attempt => if attempt = 0 then some .notFound else
      some (.success (some 7) (some ())) }

/-- Two requests are lost and the third call deposits, once. -/
theorem retry_safe_iff_heard :
    ((retry "deposit" [lostRequest, lostRequest, heard, heard]).filter (·.accepted)).length ≤ 1 ∧
      (retry "deposit" [lostRequest, lostRequest, heard, heard]).map (·.accepted) =
        [false, false, true] := by
  refine ⟨(retry_safe_iff "deposit").2 _ ?_, rfl⟩
  have hRequest : ¬ LosesAcceptance lostRequest := by
    rintro ⟨signed, processed, message, _, hSent, _⟩
    cases hSent
  have hHeard : ¬ LosesAcceptance heard := by
    rintro ⟨signed, processed, message, _, hSent, _⟩
    cases hSent
  intro a ha
  simp only [List.mem_cons, List.not_mem_nil, or_false] at ha
  rcases ha with rfl | rfl | rfl | rfl
  · exact hRequest
  · exact hRequest
  · exact hHeard
  · exact hHeard

/-- The deposit is accepted, the error invites a retry, and the retry deposits
a second time. -/
theorem lostReply_deposits_twice :
    (∃ e, (invokeContract "deposit" lostReply).result = .error e ∧ e.retryable = true) ∧
      (invokeContract "deposit" lostReply).accepted = true ∧
      ((retry "deposit" [lostReply, lostReply]).filter (·.accepted)).length = 2 :=
  ⟨⟨_, rfl, rfl⟩, rfl, rfl⟩

end SorobanClient
