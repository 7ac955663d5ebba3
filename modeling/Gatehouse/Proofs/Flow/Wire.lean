import Gatehouse.Proofs.Json.Codec
import Gatehouse.Proofs.Redis.LastWritten

/-! Contexts of flows come back as they were written, unless they are too deep.

A context is written whatever its attributes hold, but a text is read only so many levels deep
(`Json.Codec.levels`), and two of these are the context's own. Attributes without floating-point
numbers come back as they were, keys and texts and whole numbers alike, if there is room for
each of them below the two; one that goes deeper makes the whole text unreadable
(`Context.Representable.ofText_toText`). So a context that goes no deeper is found on the server
for as long as it lives there, and one that does is saved without complaint and can never be
loaded (`context_read_back`, `deep_context_lost`). -/
namespace Gatehouse.Flow.Context

open Json Json.Codec

/-- A context without floating-point numbers as the parts of a program make it: a version of 64
bits, attributes in order, and instants that a clock can show. -/
structure Representable (c : Context) : Prop where
  version : c.version ≤ maxVersion
  ordered : c.data.Ordered
  data : ∀ e ∈ c.data.toList, Canonical e.2
  createdAt : c.createdAt.OnClock
  expireAt : c.expireAt.OnClock

/-- Whether a text has room for each attribute, below the context and its attributes. -/
def Shallow (c : Context) : Prop := ∀ e ∈ c.data.toList, e.2.depth + 2 ≤ levels

instance (c : Context) : Decidable c.Shallow := inferInstanceAs (Decidable (∀ e ∈ _, _))

variable {c : Context}

theorem Representable.codec_keeps (h : c.Representable) {n : Nat}
    (hdepth : ∀ e ∈ c.data.toList, e.2.depth ≤ n) : codec.Keeps (n + 2) c :=
  keeps_record (by decide) <|
    .field (keeps_string c.transactionId) (Nat.zero_le _) <|
    .field (keeps_nat (Nat.lt_succ_of_le h.version) (Nat.le_refl _)) (Nat.zero_le _) <|
    .field (keeps_table h.ordered fun e he => (keeps_any (h.data e he)).mono (hdepth e he))
      (Nat.le_refl _) <|
    .field (keeps_instant h.createdAt) (Nat.zero_le _) <|
    .field (keeps_instant h.expireAt) (Nat.zero_le _) .nil

/-! ### Attributes that are too deep -/

/-- An attribute that is too deep makes the table unreadable, wherever it stands. -/
theorem readEntries_deep {m : Manner} {room : Nat} {l : List (String × Json)}
    (h : ∃ e ∈ l, room < e.2.depth) (t : Table Json) :
    readEntries any m room (Draft.ofMembers l) t = .error .malformed := by
  induction l generalizing t with
  | nil => exact absurd h (by simp)
  | cons e rest ih =>
    obtain ⟨key, v⟩ := e
    have hread : any.read m room (Draft.ofJson v) = Draft.within room v :=
      Draft.toJson_ofJson room v
    simp only [Draft.ofMembers, readEntries, bind, Except.bind, hread, Draft.within]
    by_cases hv : v.depth ≤ room
    · rw [if_pos hv]
      refine ih ?_ _
      obtain ⟨e, he, hdeep⟩ := h
      rcases List.mem_cons.mp he with rfl | he
      · exact absurd hv (Nat.not_le.mpr hdeep)
      · exact ⟨e, he, hdeep⟩
    · rw [if_neg hv]
      rfl

/-- What stands before the attributes can be read, but then they cannot. -/
theorem read_deep (hversion : c.version ≤ maxVersion) {room : Nat}
    (hdeep : ∃ e ∈ c.data.toList, room < e.2.depth) (m : Manner) :
    codec.read m (room + 2) (Draft.ofJson (codec.encode c)) = .error .malformed := by
  have htable : (table any).read m (room + 1) (Draft.ofJson ((table any).encode c.data)) =
      .error .malformed := by
    show (readEntries any m room (Draft.ofMembers (c.data.toList.map fun e => (e.1, e.2)))
      .empty >>= fun t => _) = _
    rw [List.map_id', readEntries_deep hdeep]
    rfl
  rw [codec]
  refine read_record_error (n := 0) (i := 2) (by decide) rfl
    (.field (keeps_string c.transactionId) (Nat.le_refl 0) <|
      .field (keeps_nat (Nat.lt_succ_of_le hversion) (Nat.le_refl _)) (Nat.le_refl 0) .nil)
    (Nat.zero_le _) rfl ?_
  show (((table any).read m (room + 1) (Draft.ofJson ((table any).encode c.data))).map
    _).mapError _ = _
  rw [htable]
  rfl

/-- The text of a context says that context if there is room for its attributes, and else it
cannot be read. -/
theorem Representable.ofText_toText (h : c.Representable) :
    codec.ofText (codec.toText c) = if c.Shallow then .ok c else .error .malformed := by
  split
  · next hshallow =>
    have hdepth : ∀ e ∈ c.data.toList, e.2.depth ≤ 125 := fun e he =>
      Nat.le_of_add_le_add_right (hshallow e he)
    exact (h.codec_keeps hdepth).ofText_toText (Nat.le_refl levels)
  · next hshallow =>
    have hdeep : ∃ e ∈ c.data.toList, 125 < e.2.depth := by
      simp only [Shallow, not_forall, Nat.not_le] at hshallow
      obtain ⟨e, he, hlt⟩ := hshallow
      exact ⟨e, he, Nat.lt_of_add_lt_add_right (show 125 + 2 < e.2.depth + 2 from hlt)⟩
    have hexact : Exact (codec.encode c) :=
      (h.codec_keeps fun e he => depthMembers_le_iff.mp (Nat.le_refl _) e he).exact
    rw [Codec.toText, Codec.ofText_toText _ hexact]
    exact read_deep h.version hdeep .text

end Gatehouse.Flow.Context

namespace Gatehouse.Redis

open Gatehouse.Flow (Context)

/-! ### Contexts on the server -/

/-- Answers a request about flows; the server's clock is the caller's. -/
def Server.serve (space : String) (now : Instant) (r : Flow.Request) : StateM Server r.Answer :=
  Store.Program.run (answer now) (flow space now r)

/-- **A context comes back as it was written if it is not too deep.** The server takes every
context. Where a text has room for its attributes, the context's text says that context, and the
server finds it, unchanged, until its time to live is over; where an attribute goes deeper, the
text cannot be read, and the server fails to find what it has taken. -/
theorem context_read_back (c : Context) (h : c.Representable) :
    Context.codec.ofText (Context.codec.toText c) =
        (if c.Shallow then .ok c else .error .malformed) ∧
      ∀ (space : String) (s : Server) (t now : Instant),
        (Server.serve space t (.create c) s).1 = .ok c ∧
          (now.reading < t.reading + timeToLive c.expireAt t * Duration.nanosPerMilli →
            (Server.serve space now (.findLast c.transactionId)
                (Server.serve space t (.create c) s).2).1 =
              if c.Shallow then .ok (some c)
              else .error (.serialization .find "Failed to decode stored value")) := by
  refine ⟨h.ofText_toText, fun space s t now => ⟨rfl, fun halive => ?_⟩⟩
  have hheld : Server.get? (Server.serve space t (.create c) s).2 now
      (contextKey space c.transactionId) = some (Context.codec.toText c) := by
    have hgone : now.reading < (heldFor (c, t)).goneAt := halive
    show ((Table.find? (Table.insert _ _ (heldFor (c, t))) _).filter _).map _ = _
    rw [Table.find?_insert_self, Option.filter_some, if_pos (decide_eq_true hgone)]
    rfl
  show decoded Context.codec (Server.get? _ now _) = _
  rw [hheld, decoded, h.ofText_toText]
  by_cases hshallow : c.Shallow <;> simp only [hshallow, if_true, if_false]

/-- So many arrays within each other. -/
def nested : Nat → Json
  | 0 => .null
  | n + 1 => .arr [nested n]

theorem depth_nested (n : Nat) : (nested n).depth = n := by
  induction n with
  | zero => rfl
  | succ n ih => rw [nested, Json.depth, Json.depthItems, Json.depthItems, ih, Nat.max_zero]

theorem canonical_nested (n : Nat) : Json.Canonical (nested n) := by
  induction n with
  | zero => exact .null
  | succ n ih => exact .arr (List.forall_mem_singleton.mpr ih)

/-- A context saved at the beginning of 1970 for five minutes, with one attribute. -/
def withAttribute (v : Json) : Context where
  transactionId := "tx"
  version := 1
  data := ⟨[("attribute", v)]⟩
  createdAt := .epoch
  expireAt := ⟨300000000000, 0⟩

theorem representable_withAttribute {v : Json} (h : Json.Canonical v) :
    (withAttribute v).Representable where
  version := (by decide : 1 ≤ Flow.maxVersion)
  ordered := List.pairwise_singleton _ _
  data := List.forall_mem_singleton.mpr h
  createdAt := (by decide : Instant.epoch.OnClock)
  expireAt := (by decide : Instant.OnClock ⟨300000000000, 0⟩)

theorem shallow_withAttribute {n : Nat} : (withAttribute (nested n)).Shallow ↔ n ≤ 125 := by
  show (∀ e ∈ [("attribute", nested n)], e.2.depth + 2 ≤ 127) ↔ _
  rw [List.forall_mem_singleton, depth_nested]
  omega

/-- An attribute of 125 levels comes back, and one of 126 is taken and lost. -/
theorem context_read_back_at_the_limit :
    (withAttribute (nested 125)).Representable ∧
      Context.codec.ofText (Context.codec.toText (withAttribute (nested 125))) =
        .ok (withAttribute (nested 125)) ∧
      (withAttribute (nested 126)).Representable ∧
      (Server.serve "authguard" .epoch (.create (withAttribute (nested 126))) {}).1 =
        .ok (withAttribute (nested 126)) ∧
      (Server.serve "authguard" .epoch (.findLast "tx")
        (Server.serve "authguard" .epoch (.create (withAttribute (nested 126))) {}).2).1 =
          .error (.serialization .find "Failed to decode stored value") := by
  have hkept := representable_withAttribute (canonical_nested 125)
  have hlost := representable_withAttribute (canonical_nested 126)
  have hback := context_read_back _ hkept
  have hgone := (context_read_back _ hlost).2 "authguard" {} .epoch .epoch
  rw [if_pos (shallow_withAttribute.mpr (by decide))] at hback
  rw [if_neg (mt shallow_withAttribute.mp (by decide))] at hgone
  exact ⟨hkept, hback.1, hlost, hgone.1, hgone.2 (by decide)⟩

/-- Not every context comes back: one that goes too deep is lost. -/
theorem deep_context_lost : ¬∀ c : Context, c.Representable →
    Context.codec.ofText (Context.codec.toText c) = .ok c := by
  intro h
  have hlost := representable_withAttribute (canonical_nested 126)
  have hback := h _ hlost
  rw [hlost.ofText_toText, if_neg (mt shallow_withAttribute.mp (by decide))] at hback
  cases hback

end Gatehouse.Redis
