import Gatehouse.Audit.Reported
import Gatehouse.Credential.Comparator
import Gatehouse.History.Store
import Gatehouse.Settings.Guard

/-! The guard of password histories: a user's last passwords may not be used again.

A new password is compared with every one remembered before anything changes. Then the
oldest entries make room, and the new password is encoded and stored. -/
namespace Gatehouse.History.Guard

open Credential (Comparator)

/-- Whether a password is one of a user's last. -/
def isUsed (s : PasswordHistorySettings) (c : Comparator) (reference : Reference) (userId : String)
    (candidate : Option String) : Calls (Except Failure Bool) :=
  match candidate with
  | none => .done (.ok false)
  | some candidate =>
    if s.enabled then
      .ask (.list reference userId) fun
        | .error e => .done (.error (.ofStore e))
        | .ok entries => .done (c.matchesAny candidate (entries.map (·.encodedPassword)))
    else .done (.ok false)

/-- Deletes entries one after the other. -/
def deleteAll : List Uuid → Calls (Except Failure Unit)
  | [] => .done (.ok ())
  | id :: rest => .ask (.delete id) fun
    | .error e => .done (.error (.ofStore e))
    | .ok _ => deleteAll rest

/-- How many entries must go before another is stored. -/
def excess (s : PasswordHistorySettings) (count : Nat) : Nat := count + 1 - s.oldPasswords

/-- Encodes a password and stores it as an entry. -/
def store (c : Comparator) (reference : Reference) (userId password : String) (now : Instant) :
    Calls (Except Failure Entry) :=
  .ask .draw fun draw =>
    match c.encode draw.salt password with
    | .error f => .done (.error f)
    | .ok encodedPassword =>
      .ask (.create { id := draw.id, reference, userId, encodedPassword, createdAt := now }) fun r =>
        .done (r.mapError .ofStore)

/-- Remembers a password that is not among the last ones. -/
def record (s : PasswordHistorySettings) (c : Comparator) (reference : Reference)
    (userId password : String) (now : Instant) : Calls (Except Failure Entry) :=
  .ask (.list reference userId) fun
    | .error e => .done (.error (.ofStore e))
    | .ok entries =>
      let entries := Entry.oldestFirst entries
      match c.matchesAny password (entries.map (·.encodedPassword)) with
      | .error f => .done (.error f)
      | .ok true => .done (.error (.passwordInHistory s.oldPasswords))
      | .ok false =>
        (deleteAll ((entries.take (excess s entries.length)).map (·.id))).bind fun
          | .error f => .done (.error f)
          | .ok () => store c reference userId password now

/-- What is reported about a password that was to be remembered. -/
def report (s : PasswordHistorySettings) (reference : Reference) (userId : String)
    (result : Except Failure Entry) : Audit.Report :=
  let about (kind : Audit.Kind) : Audit.Report :=
    ((Audit.Report.of kind userId).withReference reference).withAttribute
      "history_size" (.nat s.oldPasswords)
  match result with
  | .ok e => (about .passwordHistoryCreated).withAttribute "entry_id" (.str e.id.toText)
  | .error (.passwordInHistory _) =>
    (about .passwordReuseRejected).withFailure "password already in history"
  | .error f => (about .passwordHistoryCreated).withFailure f.message

/-- Remembers a new password, where a history is kept, and reports it. -/
def add (s : PasswordHistorySettings) (c : Comparator) (reference : Reference)
    (userId password : String) (now : Instant) : Calls (Audit.Reported (Option Entry)) :=
  if s.enabled then
    (record s c reference userId password now).bind fun result =>
      .done ⟨result.map some, [report s reference userId result]⟩
  else .done ⟨.ok none, []⟩

end Gatehouse.History.Guard
