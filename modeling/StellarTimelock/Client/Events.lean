import StellarTimelock.Contract.History
import StellarTimelock.Semantics.DateText
import StellarTimelock.Semantics.FloatingPoint
import Mathlib.Logic.Function.Basic

/-! The client's event reader: how one contract event becomes a row of the
History tab. Times are integers. Amounts in XLM are computed in an arithmetic:
that of the client rounds to double precision, the exact one is there to be
compared with. -/
namespace SorobanClient

open XlmVault Calendar Transaction FloatingPoint

variable {Address : Type}

/-- The texts by which the client knows addresses. -/
structure StrKey (Address : Type) where
  encode : Address → String
  injective : Function.Injective encode

/-- The exceptions of the language that decoding can raise. -/
inductive JsError where
  | typeError
  | syntaxError
  | rangeError
  deriving DecidableEq, Repr

/-- White space and line ends, as `trim` removes them and `\s` matches them. -/
def isWhiteSpace (c : Char) : Bool :=
  c.toNat ∈ [9, 10, 11, 12, 13, 32, 160, 5760, 8232, 8233, 8239, 8287, 12288, 65279] ||
    (8192 ≤ c.toNat && c.toNat ≤ 8202)

/-- A decoded `ScVal`. -/
inductive Native where
  | text (s : String)
  | bigint (n : Int)
  deriving DecidableEq

def scValToNative (key : StrKey Address) : ScVal Address → Native
  | .symbol s => .text s
  | .address a => .text (key.encode a)
  | .u64 n => .bigint n.toNat
  | .i128 n => .bigint n.val

/-- `String(x)`. -/
def Native.string : Native → String
  | .text s => s
  | .bigint n => toString n

/-- `BigInt(x)` of a tuple component that may be missing. The contract puts
no text where a number is read. -/
def toBigInt : Option Native → Except JsError Int
  | none => .error .typeError
  | some (.text _) => .error .syntaxError
  | some (.bigint n) => .ok n

/-- `new Date(Number(x) * 1000).toISOString().slice(0, 10)`. A number too large
to be exact is out of the range of dates in any case. -/
def isoDay : Option Native → Except JsError String
  | some (.bigint n) =>
      match toISOString (n * 1000) with
      | some text => .ok (String.ofList (text.take 10))
      | none => .error .rangeError
  | _ => .error .rangeError

def stroopsPerXlm : Rat := 10000000

/-- `Number(stroops) / Number(STROOPS_PER_XLM)`, which rounds twice. -/
def stroopsToXlm [Arithmetic] (stroops : Int) : Rat :=
  Arithmetic.div (Arithmetic.ofInt stroops) stroopsPerXlm

/-- No stroops are no XLM, in either arithmetic; events without an amount have
this one. -/
theorem stroopsToXlm_zero [Arithmetic] : stroopsToXlm 0 = 0 := by
  unfold stroopsToXlm Arithmetic.div Arithmetic.ofInt
  rw [Int.cast_zero, Arithmetic.round_zero, zero_div, Arithmetic.round_zero]

/-- `Math.round` rounds a half up. -/
def mathRound (x : Rat) : Int := ⌊x + 1 / 2⌋

/-- Round half up, to avoid silent truncation of amounts the user enters. -/
def xlmToStroops [Arithmetic] (amount : Rat) : Int :=
  mathRound (Arithmetic.mul amount stroopsPerXlm)

inductive Kind where
  | create
  | deposit
  | extend
  | withdraw
  deriving DecidableEq, Repr

def decodeKind (sym : String) : Option Kind :=
  if sym = "create" then some .create
  else if sym = "deposit" then some .deposit
  else if sym = "extend" then some .extend
  else if sym = "withdraw" then some .withdraw
  else none

/-- An event as the RPC returns it, with the close time of its ledger. -/
structure EventResponse (Address : Type) where
  event : Event Address
  ledgerClosedAt : UInt64

structure ParsedEvent where
  vaultId : String
  ownerPublicKey : String
  kind : Kind
  amount : Rat
  note : String
  timestamp : Int
  deriving DecidableEq

/-- The amount and the note of an event, from the tuple after the vault id. -/
def parseDetails [Arithmetic] (kind : Kind) (rest : List Native) : Except JsError (Rat × String) :=
  match kind with
  | .create => do
      let stroops ← toBigInt rest[0]?
      let day ← isoDay rest[1]?
      return (stroopsToXlm stroops, "unlock " ++ day)
  | .extend => do
      let day ← isoDay rest[0]?
      return (0, "new unlock " ++ day)
  | .deposit | .withdraw => do
      let stroops ← toBigInt rest[0]?
      return (stroopsToXlm stroops, "")

/-- One event, or `none` for an event the reader skips. -/
def parseEvent [Arithmetic] (key : StrKey Address) (ev : EventResponse Address) :
    Except JsError (Option ParsedEvent) :=
  match ev.event.topics with
  | kindRaw :: ownerRaw :: _ =>
      match decodeKind (scValToNative key kindRaw).string, ev.event.value.map (scValToNative key) with
      | some kind, vaultId :: rest => do
          let (amount, note) ← parseDetails kind rest
          return some
            { vaultId := vaultId.string
              ownerPublicKey := (scValToNative key ownerRaw).string
              kind, amount, note
              timestamp := ev.ledgerClosedAt.toNat }
      | _, _ => .ok none
  | _ => .ok none

/-- The loop of the reader over one stream; an exception ends it. -/
def parseEvents [Arithmetic] (key : StrKey Address) :
    List (EventResponse Address) → Except JsError (List ParsedEvent)
  | [] => .ok []
  | ev :: evs => do
      let parsed ← parseEvent key ev
      let later ← parseEvents key evs
      return parsed.toList ++ later

/-- A stream parses exactly if its first event does, possibly to nothing, and
the rest of the stream does. -/
theorem parseEvents_cons_ok [Arithmetic] {key : StrKey Address} {ev : EventResponse Address}
    {evs : List (EventResponse Address)} {all : List ParsedEvent} :
    parseEvents key (ev :: evs) = .ok all ↔
      ∃ parsed later, parseEvent key ev = .ok parsed ∧ parseEvents key evs = .ok later ∧
        all = parsed.toList ++ later := by
  rw [parseEvents]
  simp only [except_bind_ok]
  constructor
  · rintro ⟨parsed, hHead, later, hTail, hAll⟩
    cases hAll
    exact ⟨parsed, later, hHead, hTail, rfl⟩
  · rintro ⟨parsed, later, hHead, hTail, rfl⟩
    exact ⟨parsed, hHead, later, hTail, rfl⟩

/-- A stream parses exactly when both of its parts do. -/
theorem parseEvents_append_ok [Arithmetic] {key : StrKey Address}
    {first second : List (EventResponse Address)} {all : List ParsedEvent} : parseEvents key (first ++ second) = .ok all ↔
      ∃ before after, parseEvents key first = .ok before ∧ parseEvents key second = .ok after ∧
        all = before ++ after := by
  induction first generalizing all with
  | nil =>
      constructor
      · intro h
        exact ⟨[], all, rfl, h, rfl⟩
      · rintro ⟨before, after, hBefore, hAfter, rfl⟩
        cases hBefore
        exact hAfter
  | cons ev first ih =>
      rw [List.cons_append, parseEvents_cons_ok]
      constructor
      · rintro ⟨parsed, later, hHead, hRest, rfl⟩
        obtain ⟨before, after, hBefore, hAfter, rfl⟩ := ih.mp hRest
        refine ⟨parsed.toList ++ before, after, ?_, hAfter, (List.append_assoc _ _ _).symm⟩
        exact parseEvents_cons_ok.mpr ⟨parsed, before, hHead, hBefore, rfl⟩
      · rintro ⟨before, after, hBefore, hAfter, rfl⟩
        obtain ⟨parsed, later, hHead, hLater, rfl⟩ := parseEvents_cons_ok.mp hBefore
        refine ⟨parsed, later ++ after, hHead, ?_, List.append_assoc _ _ _⟩
        exact ih.mpr ⟨later, after, hLater, hAfter, rfl⟩

/-- The text by which the client knows a vault. -/
def idText (id : UInt64) : String := toString (id.toNat : Int)

theorem repr_injective : Function.Injective Nat.repr := by
  intro a b h
  have hDigits := congrArg String.toList h
  rw [Nat.toList_repr, Nat.toList_repr] at hDigits
  have hValue := congrArg (fun ds => Nat.ofDigitChars 10 ds 0) hDigits
  simp only [Nat.ofDigitChars_toDigits (by decide : 1 < 10) (by decide : 10 ≤ 10)] at hValue
  exact hValue

/-- Different ids have different texts, so that looking a vault up by its text
is looking it up by its id. -/
theorem idText_injective : Function.Injective idText := by
  intro a b h
  exact UInt64.toNat_inj.mp (repr_injective h)

/-- Numbered addresses, known by their decimal texts. -/
def numbered : StrKey Nat := ⟨Nat.repr, repr_injective⟩

/-- The last unlock time that is a date, in seconds. -/
def maxUnlock : Nat := 8640000000000

/-- The UTC day of an unlock time. -/
def unlockDate (u : UInt64) : Date := Date.ofDay (u.toNat / 86400)

/-- That day as the reader writes it into a note. -/
def unlockDay (u : UInt64) : String := String.ofList ((isoDate (unlockDate u)).take 10)

/-- The day of an unlock time, as a note names it: `toISOString` throws beyond
the greatest instant of the language, in the year 275760, and such an event makes
the whole stream throw. -/
theorem isoDay_unlock (u : UInt64) : isoDay (some (.bigint u.toNat)) =
    if u.toNat ≤ maxUnlock then .ok (unlockDay u) else .error .rangeError := by
  have hDay : (u.toNat * 1000 : Int) / msPerDay = u.toNat / 86400 := by
    unfold msPerDay
    omega
  unfold isoDay toISOString
  by_cases h : u.toNat ≤ maxUnlock
  · have hRange : ¬ ((u.toNat * 1000 : Int) < -maxTime ∨ maxTime < u.toNat * 1000) := by
      unfold maxTime
      unfold maxUnlock at h
      omega
    simp only [hRange, if_false, h, if_true, hDay]
    rw [List.take_append_of_le_length (isoDate_length _)]
    rfl
  · have hRange : (u.toNat * 1000 : Int) < -maxTime ∨ maxTime < u.toNat * 1000 := by
      unfold maxTime
      unfold maxUnlock at h
      omega
    simp only [hRange, if_true, h, if_false]

section Parse

variable [Arithmetic] (key : StrKey Address) (a : Address) (id u time : UInt64) (n : I128)

/-- What the client makes of a `create` event. Of the unlock time only the UTC
day survives, in the note. -/
theorem parse_create :
    parseEvent key ⟨⟨[.symbol "create", .address a], [.u64 id, .i128 n, .u64 u]⟩, time⟩ =
      if u.toNat ≤ maxUnlock then
        .ok (some ⟨idText id, key.encode a, .create, stroopsToXlm n.val, "unlock " ++ unlockDay u,
          time.toNat⟩)
      else .error .rangeError := by
  show (do
    let (amount, note) ← (do
      let day ← isoDay (some (.bigint u.toNat))
      return (stroopsToXlm n.val, "unlock " ++ day))
    return some (ParsedEvent.mk (idText id) (key.encode a) .create amount note time.toNat)) = _
  rw [isoDay_unlock]
  split_ifs <;> rfl

/-- What the client makes of an `extend` event: it has no amount, and of the new
unlock time only the UTC day survives, in the note. -/
theorem parse_extend :
    parseEvent key ⟨⟨[.symbol "extend", .address a], [.u64 id, .u64 u]⟩, time⟩ =
      if u.toNat ≤ maxUnlock then
        .ok (some ⟨idText id, key.encode a, .extend, 0, "new unlock " ++ unlockDay u, time.toNat⟩)
      else .error .rangeError := by
  show (do
    let (amount, note) ← (do
      let day ← isoDay (some (.bigint u.toNat))
      return ((0 : Rat), "new unlock " ++ day))
    return some (ParsedEvent.mk (idText id) (key.encode a) .extend amount note time.toNat)) = _
  rw [isoDay_unlock]
  split_ifs <;> rfl

/-- What the client makes of a `deposit` event; it has no note. -/
theorem parse_deposit :
    parseEvent key ⟨⟨[.symbol "deposit", .address a], [.u64 id, .i128 n]⟩, time⟩ =
      .ok (some ⟨idText id, key.encode a, .deposit, stroopsToXlm n.val, "", time.toNat⟩) := rfl

/-- What the client makes of a `withdraw` event; its amount is the balance that
was paid out. -/
theorem parse_withdraw :
    parseEvent key ⟨⟨[.symbol "withdraw", .address a], [.u64 id, .i128 n]⟩, time⟩ =
      .ok (some ⟨idText id, key.encode a, .withdraw, stroopsToXlm n.val, "", time.toNat⟩) := rfl

end Parse

end SorobanClient
