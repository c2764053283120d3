import StellarTimelock.Client.RetrySafety

/-! What the receipts of a call say about how it ended: the truth, unless the
server has put the transaction off and the call waits for it all the same. -/
namespace SorobanClient

variable {Account Tx Sim Key Value : Type}

/-- The call signs a transaction, and the server answers its submission with
this. -/
def Answers (a : Attempt Account Tx Sim Key Value) (reply : SendReply) : Prop :=
  ∃ signed, Signs a signed ∧ a.sendTransaction signed = .answered reply

/-- The status of a receipt tells how the call has ended. -/
structure Tells (receipt : TxReceipt) (result : Except SorobanError (Option Value)) : Prop where
  success : receipt.status = .success ↔ ∃ value, result = .ok value
  failed : receipt.status = .failed ↔ ∃ e, result = .error e ∧ e.errorClass = .onChain
  pending : receipt.status = .pending ↔ ∃ e, result = .error e ∧ e.errorClass = .pollTimeout

/-- One receipt, for its hash, of a transaction that the server has taken as
pending; of any other none, and nothing is asked of it. -/
structure ReceiptsMatch (method : String) (a : Attempt Account Tx Sim Key Value) : Prop where
  taken : ∀ reply, Answers a reply → reply.status = .pending →
    ∃ receipt, (invokeContract method a).receipts = [receipt] ∧ receipt.txHash = reply.hash ∧
      Tells receipt (invokeContract method a).result
  others : (¬ ∃ reply, Answers a reply ∧ reply.status = .pending) →
    (invokeContract method a).receipts = [] ∧ (invokeContract method a).queries = 0

/-- Every exit of the loop emits the receipt that tells of it. -/
theorem confirm_tells (method txHash : String) (getTransaction : Nat → Option (GetReply Value)) :
    (confirm method txHash getTransaction).receipt.txHash = txHash ∧
      Tells (confirm method txHash getTransaction).receipt
        (confirm method txHash getTransaction).result := by
  unfold confirm conclude
  split
  · exact ⟨rfl, ⟨by simp, by simp, by simp⟩⟩
  · exact ⟨rfl, ⟨by simp, by simp [sorobanOnChainError], by simp [sorobanOnChainError]⟩⟩
  · exact ⟨rfl, ⟨by simp, by simp [sorobanPollTimeoutError], by simp [sorobanPollTimeoutError]⟩⟩

/-- What a call does with an answer that it takes for an acceptance. -/
theorem invokeContract_confirms (method : String) {a : Attempt Account Tx Sim Key Value}
    {reply : SendReply} (h : Answers a reply)
    (hStatus : reply.status = .pending ∨ reply.status = .tryAgainLater) :
    let ended := confirm method reply.hash (a.getTransaction reply.hash)
    (invokeContract method a).result = ended.result ∧
      (invokeContract method a).receipts = [ended.receipt] := by
  obtain ⟨signed, hSigns, hSent⟩ := h
  unfold invokeContract
  rw [prepare_ok_iff.mpr hSigns]
  unfold submit
  simp only [hSent]
  rcases hStatus with hStatus | hStatus <;> simp [hStatus]

/-- Without such an answer a call emits nothing and asks for nothing. -/
theorem invokeContract_silent {method : String} {a : Attempt Account Tx Sim Key Value}
    (h : ∀ reply, Answers a reply → reply.status = .error ∨ reply.status = .duplicate) :
    (invokeContract method a).receipts = [] ∧ (invokeContract method a).queries = 0 := by
  unfold invokeContract
  cases hPrepared : prepare method a with
  | error e => exact ⟨rfl, rfl⟩
  | ok signed =>
      unfold submit
      cases hSent : a.sendTransaction signed with
      | requestLost message => simp [hSent]
      | replyLost processed message => simp [hSent]
      | answered reply =>
          rcases h reply ⟨signed, prepare_ok_iff.mp hPrepared, hSent⟩ with hStatus | hStatus
          · simp [hSent, hStatus]
          · simp [hSent, hStatus]

theorem Answers.unique {a : Attempt Account Tx Sim Key Value} {reply other : SendReply}
    (h : Answers a reply) (h' : Answers a other) : reply = other := by
  obtain ⟨signed, hSigns, hSent⟩ := h
  obtain ⟨again, hAgain, hSent'⟩ := h'
  -- The signed transaction does not depend on the method that errors name.
  have hFirst : prepare "" a = .ok signed := prepare_ok_iff.mpr hSigns
  have hSecond : prepare "" a = .ok again := prepare_ok_iff.mpr hAgain
  cases hFirst.symm.trans hSecond
  exact Submission.answered.inj (hSent.symm.trans hSent')

/-- The receipts of a call match its outcome if and only if the server does not
answer its submission with `TRY_AGAIN_LATER`. -/
theorem receipts_match_iff (method : String) (a : Attempt Account Tx Sim Key Value) :
    ReceiptsMatch method a ↔ ∀ reply, Answers a reply → reply.status ≠ .tryAgainLater := by
  constructor
  · intro h reply hAnswers hLater
    have hNotPending : ¬ ∃ reply, Answers a reply ∧ reply.status = .pending := by
      rintro ⟨other, hOther, hPending⟩
      rw [hOther.unique hAnswers, hLater] at hPending
      cases hPending
    have hEmitted := (invokeContract_confirms method hAnswers (Or.inr hLater)).2
    rw [(h.others hNotPending).1] at hEmitted
    cases hEmitted
  · intro h
    constructor
    · intro reply hAnswers hPending
      obtain ⟨hResult, hReceipts⟩ := invokeContract_confirms method hAnswers (Or.inl hPending)
      obtain ⟨hHash, hTells⟩ := confirm_tells method reply.hash (a.getTransaction reply.hash)
      exact ⟨_, hReceipts, hHash, hResult ▸ hTells⟩
    · intro hNone
      apply invokeContract_silent
      intro reply hAnswers
      have hNotLater := h reply hAnswers
      cases hStatus : reply.status with
      | pending => exact absurd ⟨reply, hAnswers, hStatus⟩ hNone
      | tryAgainLater => exact absurd hStatus hNotLater
      | duplicate => exact Or.inr rfl
      | error => exact Or.inl rfl

/-- The server puts a transaction off and never hears of it again. -/
def putOff : Attempt Unit Unit Unit Unit Unit :=
  { lostReply with
    sendTransaction := fun _ => .answered ⟨.tryAgainLater, "a1", none⟩
    getTransaction := fun _ _ => some .notFound }

/-- It is asked for 30 times, and a receipt says that it is pending. -/
theorem putOff_receipt :
    ¬ ReceiptsMatch "deposit" putOff ∧ (invokeContract "deposit" putOff).accepted = false ∧
      (invokeContract "deposit" putOff).queries = 30 ∧
      (invokeContract "deposit" putOff).receipts = [⟨"deposit", "a1", none, .pending⟩] := by
  have hEmitted : (invokeContract "deposit" putOff).receipts =
      [⟨"deposit", "a1", none, .pending⟩] := rfl
  refine ⟨?_, rfl, rfl, hEmitted⟩
  intro hMatch
  have hNone := (hMatch.others (by
    rintro ⟨reply, ⟨signed, _, hSent⟩, hPending⟩
    cases Submission.answered.inj hSent
    cases hPending)).1
  rw [hEmitted] at hNone
  cases hNone

end SorobanClient
