import Gatehouse.Counter.Wire
import Gatehouse.Proofs.Json.Codec
import Gatehouse.Proofs.Redis.Mirror

/-! Records of counters come back as they were written.

Every part of a record is kept by its codec: names of kinds, texts of any characters, parts that
are absent, counts of 32 and of 64 bits, and instants to the nanosecond. So a record that can be
written at all is the one that its text says, and the server finds it, unchanged, for as long as
it lives there (`record_read_back`). -/
namespace Gatehouse

open Json.Codec

theorem Reference.codec_keeps (r : Reference) : codec.Keeps 1 r :=
  keeps_record (by decide) <|
    .field (keeps_choice (by cases r.type <;> rfl)) (Nat.le_refl 0) <|
    .field (keeps_string r.id) (Nat.le_refl 0) .nil

theorem Criteria.codec_keeps (c : Criteria) : codec.Keeps 2 c :=
  keeps_record (by decide) <|
    .field c.reference.codec_keeps (Nat.le_refl 1) <|
    .field (keeps_optionString c.client) (Nat.zero_le 1) <|
    .field (keeps_optionString c.identityProvider) (Nat.zero_le 1) <|
    .field (keeps_optionString c.factor) (Nat.zero_le 1) <|
    .field (keeps_string c.subject) (Nat.zero_le 1) .nil

namespace Counter

theorem Key.codec_keeps (k : Key) : codec.Keeps 3 k :=
  keeps_record (by decide) <|
    .field (keeps_choice (by cases k.kind <;> rfl)) (Nat.zero_le 2) <|
    .field k.criteria.codec_keeps (Nat.le_refl 2) .nil

/-- A record whose counts fit their 32 and 64 bits, and whose instants a clock can show. -/
structure Record.Representable (r : Record) : Prop where
  attempts : r.attempts ≤ maxAttempts
  tokens_low : -Nat.pow 2 63 ≤ r.tokensLeft
  tokens_high : r.tokensLeft < Nat.pow 2 63
  windowStart : r.windowStart.OnClock
  createdAt : r.createdAt.OnClock
  updatedAt : r.updatedAt.OnClock
  expireAt : r.expireAt.OnClock

theorem Record.Representable.codec_keeps {r : Record} (h : r.Representable) :
    codec.Keeps 4 r :=
  keeps_record (by decide) <|
    .field r.key.codec_keeps (Nat.le_refl 3) <|
    .field (keeps_nat (Nat.lt_succ_of_le h.attempts) (by decide)) (Nat.zero_le 3) <|
    .field (keeps_int64 h.tokens_low h.tokens_high) (Nat.zero_le 3) <|
    .field (keeps_bool r.allowRequest) (Nat.zero_le 3) <|
    .field (keeps_instant h.windowStart) (Nat.zero_le 3) <|
    .field (keeps_instant h.createdAt) (Nat.zero_le 3) <|
    .field (keeps_instant h.updatedAt) (Nat.zero_le 3) <|
    .field (keeps_instant h.expireAt) (Nat.zero_le 3) .nil

end Counter

namespace Redis

open Counter (Key Record)

/-! ### Records on the server -/

/-- A value is put under its key, or the server is as it was. -/
theorem Server.answer_set_cases (key value : String) (millis : Nat) (condition : Condition)
    (now : Instant) (s : Server) :
    answer now (.set key value millis condition) s =
        (.ok true,
          ⟨s.entries.insert key ⟨value, now.reading + millis * Duration.nanosPerMilli⟩⟩) ∨
      answer now (.set key value millis condition) s = (.ok false, s) := by
  cases condition <;> cases htaken : (s.get? now key).isSome <;> simp [answer, htaken]

/-- A write that the server takes puts the record's text under its key. -/
theorem Server.handle_write_of_ok {space : String} {t : Instant} {s : Server} {r : Record}
    {mode : Counter.Write} (h : (handle space t (.write mode r) s).1 = .ok r) :
    (handle space t (.write mode r) s).2 = s.put space t r := by
  have hcases := fun condition => answer_set_cases (counterKey space r.key)
    (Record.codec.toText r) (timeToLive r.expireAt t) condition t s
  cases mode with
  | create =>
    rcases hcases .free with hset | hset <;> simp only [handle, counter, run_command, hset] at h ⊢
    · rfl
    · cases h
  | update =>
    rcases hcases .taken with hset | hset <;> simp only [handle, counter, run_command, hset] at h ⊢
    · rfl
    · cases h

/-- **A record comes back as it was written**: its text says that record, and where the server
took it, there it is found unchanged until its time to live is over. -/
theorem record_read_back (r : Record) (h : r.Representable) :
    Record.codec.ofText (Record.codec.toText r) = .ok r ∧
      ∀ (space : String) (s : Server) (mode : Counter.Write) (t now : Instant),
        (Server.handle space t (.write mode r) s).1 = .ok r →
        now.reading < t.reading + timeToLive r.expireAt t * Duration.nanosPerMilli →
        (Server.handle space now (.find r.key) (Server.handle space t (.write mode r) s).2).1 =
          .ok (some r) := by
  have htext : Record.codec.ofText (Record.codec.toText r) = .ok r :=
    h.codec_keeps.ofText_toText (by decide)
  refine ⟨htext, fun space s mode t now hwritten halive => ?_⟩
  rw [Server.handle_write_of_ok hwritten, Server.handle_find, Server.get?_put rfl, if_pos halive,
    decoded]
  simp only [htext]

/-- A record of the extremes: quotes, backslashes, control characters and wide letters in its
texts, the largest count and the least, both ends of the calendar, and a leap second. -/
theorem record_read_back_extremes :
    let r : Record := {
      key := ⟨.rateLimit, {
        reference := ⟨.organization, "a\"b\\c/\u0001\u001f\x7f"⟩
        client := some ""
        identityProvider := none
        factor := some "\n\r\t\x08\x0c"
        subject := "żółć 😀 \uffff" }⟩
      attempts := 4294967295
      tokensLeft := -9223372036854775808
      allowRequest := false
      windowStart := .earliest
      createdAt := ⟨-1, 0⟩
      updatedAt := ⟨1483228799999999999, 500000001⟩
      expireAt := .latest }
    r.Representable ∧ (Server.handle "authguard" .epoch (.write .create r) {}).1 = .ok r ∧
      Record.codec.ofText (Record.codec.toText r) = .ok r ∧
      (Server.handle "authguard" ⟨86400000000000, 0⟩ (.find r.key)
        (Server.handle "authguard" .epoch (.write .create r) {}).2).1 = .ok (some r) := by
  intro r
  have h : r.Representable :=
    ⟨by decide, by decide, by decide, by decide, by decide, by decide, by decide⟩
  have hback := record_read_back r h
  exact ⟨h, rfl, hback.1, hback.2 "authguard" {} .create .epoch ⟨86400000000000, 0⟩ rfl (by decide)⟩

end Redis

end Gatehouse
