import Gatehouse.Proofs.Counter.Lasting
import Gatehouse.Proofs.Redis.TimeToLive
import Gatehouse.Redis.Server

/-! The server as a mirror of memory.

The engine decides over the server as it does over a store in memory that is purged before
every call (`decisions_agree`). From call to call the server holds, under every key, the
text of the record that memory holds there, and holds it exactly until the record's end
(`Mirrors`): a time to live is told anew at every write, but what a failure leaves always
ends later than it is written, and on a whole millisecond. So the server finds a key free
where nothing was found in memory, and no write is refused. A lock that ends between two
milliseconds is gone from the server too early, and so is all that ends with the calendar
(`decisions_can_differ`). -/
namespace Gatehouse.Redis

open Counter (Key Memory Policy Record)
open Counter.Engine (Event Stocked counters evaluate live nextRecord recordFailure recordSuccess
  reset rounds_eq writing)

/-- Keys of counters differ where their storage keys do. -/
theorem counterKey_eq_iff {space : String} {k k' : Key} :
    counterKey space k = counterKey space k' ↔ k.storageKey = k'.storageKey :=
  String.append_right_inj _

/-! ### The engine over the server -/

namespace Server

/-- Answers a request about counters; the server's clock is the caller's. -/
def handle (space : String) (now : Instant) (r : Counter.Request) : StateM Server r.Answer :=
  Store.Program.run (answer now) (counter space now r)

/-- Runs calls about counters. -/
def run {α : Type} (space : String) (now : Instant) (s : Server) (calls : Counter.Calls α) :
    α × Server :=
  Store.Program.run (handle space now) calls s

/-- Puts a record that is written at an instant. -/
def put (space : String) (now : Instant) (s : Server) (r : Record) : Server :=
  ⟨s.entries.insert (counterKey space r.key)
    ⟨Record.codec.toText r, now.reading + timeToLive r.expireAt now * Duration.nanosPerMilli⟩⟩

/-- Removes the record of a key. -/
def erase (space : String) (s : Server) (k : Key) : Server :=
  ⟨s.entries.erase (counterKey space k)⟩

variable {space : String} {t now : Instant} {s : Server} {k : Key} {r : Record}
  {stored : Option Record}

theorem get?_put (h : k.storageKey = r.key.storageKey) :
    (s.put space t r).get? now (counterKey space k) =
      if now.reading < t.reading + timeToLive r.expireAt t * Duration.nanosPerMilli then
        some (Record.codec.toText r)
      else none := by
  rw [counterKey_eq_iff.mpr h, get?, put, Table.find?_insert_self, Option.filter_some]
  split <;> simp_all

theorem get?_put_ne (h : k.storageKey ≠ r.key.storageKey) :
    (s.put space t r).get? now (counterKey space k) = s.get? now (counterKey space k) := by
  rw [get?, put, Table.find?_insert_ne _ fun heq => h (counterKey_eq_iff.mp heq)]
  rfl

theorem get?_erase {k' : Key} (h : k'.storageKey = k.storageKey) :
    (s.erase space k).get? now (counterKey space k') = none := by
  rw [counterKey_eq_iff.mpr h, get?, erase, Table.find?_erase_self]
  rfl

theorem get?_erase_ne {k' : Key} (h : k'.storageKey ≠ k.storageKey) :
    (s.erase space k).get? now (counterKey space k') = s.get? now (counterKey space k') := by
  rw [get?, erase, Table.find?_erase_ne _ fun heq => h (counterKey_eq_iff.mp heq)]
  rfl

theorem run_ask {α : Type} (request : Counter.Request) (next : request.Answer → Counter.Calls α) :
    s.run space now (.ask request next) =
      (handle space now request s).2.run space now (next (handle space now request s).1) := rfl

/-- What a find makes of the text under a key. -/
theorem handle_find :
    handle space now (.find k) s =
      (decoded Record.codec (s.get? now (counterKey space k)), s) := rfl

theorem answer_set_free {key : String} (h : (s.get? now key).isSome = false) (value : String)
    (millis : Nat) :
    answer now (.set key value millis .free) s =
      (.ok true,
        ⟨s.entries.insert key ⟨value, now.reading + millis * Duration.nanosPerMilli⟩⟩) := by
  simp only [answer, h, Bool.not_false, if_true]

theorem answer_set_taken {key : String} (h : (s.get? now key).isSome = true) (value : String)
    (millis : Nat) :
    answer now (.set key value millis .taken) s =
      (.ok true,
        ⟨s.entries.insert key ⟨value, now.reading + millis * Duration.nanosPerMilli⟩⟩) := by
  simp only [answer, h, if_true]

theorem run_command {α : Type} (c : Command) (next : c.Answer → Calls α) :
    Store.Program.run (answer now) (.ask c next) s =
      Store.Program.run (answer now) (next (answer now c s).1) (answer now c s).2 := rfl

/-- The write that follows a find succeeds, where the key was and is free, or was and is
taken. -/
theorem handle_write_found
    (h : (s.get? now (counterKey space r.key)).isSome = stored.isSome) :
    handle space now (.write (if stored.isSome then .update else .create) r) s =
      (.ok r, s.put space now r) := by
  cases stored with
  | none =>
    show Store.Program.run (answer now) (.ask (.set _ _ _ .free) _) s = _
    rw [run_command, answer_set_free h]
    rfl
  | some r₀ =>
    show Store.Program.run (answer now) (.ask (.set _ _ _ .taken) _) s = _
    rw [run_command, answer_set_taken h]
    rfl

theorem run_reset : (s.run space now (reset k)).2 = s.erase space k := rfl

variable {p : Policy}

theorem run_evaluate (hp : p.isMisconfigured = false)
    (h : decoded Record.codec (s.get? now (counterKey space k)) = .ok stored) :
    s.run space now (evaluate p k now) = (.ok (p.decide (live p stored now) now), s) := by
  simp only [evaluate, hp, Bool.false_eq_true, if_false]
  rw [run_ask, handle_find, h]
  rfl

/-- A failure is counted in one round. -/
theorem run_recordFailure (hp : p.isMisconfigured = false)
    (h : decoded Record.codec (s.get? now (counterKey space k)) = .ok stored)
    (htaken : (s.get? now (counterKey space k)).isSome = stored.isSome)
    (hkey : ∀ r ∈ stored, r.key.storageKey = k.storageKey) :
    s.run space now (recordFailure p k now) =
      (.ok (p.decide (some (nextRecord p k now stored)) now),
        s.put space now (nextRecord p k now stored)) := by
  have hsame : counterKey space (nextRecord p k now stored).key = counterKey space k :=
    counterKey_eq_iff.mpr (Counter.Engine.nextRecord_storageKey hkey)
  rw [Counter.Engine.recordFailure_eq hp, rounds_eq, run_ask, handle_find, h]
  show s.run space now (writing p k now 1 2 stored) = _
  rw [writing, run_ask, handle_write_found (by rw [hsame]; exact htaken)]
  rfl

end Server

namespace Mirror

/-- Runs on counters in memory, where all that is over is dropped before every call. -/
def memory (policy : Key → Policy) :
    Machine (Key × Event × Instant) Memory (Option (Except Store.Error Counter.Decision)) where
  next e s := (counters policy).next e (s.purge e.2.2)

/-- Runs on counters on the server, which drops by itself what is over. -/
def server (space : String) (policy : Key → Policy) :
    Machine (Key × Event × Instant) Server (Option (Except Store.Error Counter.Decision)) where
  next e s :=
    let (k, event, now) := e
    let run {α : Type} (calls : Counter.Calls α) := s.run space now calls
    match event with
    | .evaluated => (some (run (evaluate (policy k) k now)).1, (run (evaluate (policy k) k now)).2)
    | .failed =>
      (some (run (recordFailure (policy k) k now)).1, (run (recordFailure (policy k) k now)).2)
    | .succeeded => (none, (run (recordSuccess (policy k) k)).2)
    | .removed => (none, (run (reset k)).2)
    | .purged => (none, s)

/-! ### What is held from call to call -/

/-- The records of a store can be read again when they are stored as texts. -/
def Readable (m : Memory) : Prop :=
  ∀ e ∈ m.records.toList, Record.codec.ofText (Record.codec.toText e.2) = .ok e.2

/-- A record that failures leave. -/
structure Kept (policy : Key → Policy) (r : Record) : Prop where
  goesOn : (policy r.key).GoesOn r
  sharp : r.Sharp

/-- From an instant on the server holds under every key what memory holds there, until it is
over. -/
structure Mirrors (space : String) (policy : Key → Policy) (t : Instant) (s : Server)
    (m : Memory) : Prop where
  stocked : Stocked (Kept policy) m
  ordered : m.records.Ordered
  readable : Readable m
  get?_eq : ∀ now, t ≤ now → now.Tick → ∀ k, s.get? now (counterKey space k) =
    ((m.find? k).filter fun r => !r.isExpired now).map Record.codec.toText

/-- An event at an instant of whole milliseconds, under a policy that makes sense and counts
in those. -/
structure Suited (policy : Key → Policy) (e : Key × Event × Instant) : Prop where
  wellConfigured : (policy e.1).WellConfigured
  inMillis : (policy e.1).InMillis
  tick : e.2.2.Tick

variable {space : String} {policy : Key → Policy} {t now : Instant} {s : Server} {m : Memory}
  {k : Key} {r : Record}

theorem mirrors_empty (space : String) (policy : Key → Policy) (t : Instant) :
    Mirrors space policy t {} {} where
  stocked := Counter.Engine.stocked_empty _
  ordered := Table.ordered_empty
  readable _ he := by cases he
  get?_eq _ _ _ k := by
    rw [Counter.Memory.find?_empty k]
    rfl

theorem Suited.serves {e : Key × Event × Instant} (h : Suited policy e) :
    (policy e.1).Serves e.2.2 := ⟨h.tick.lt_latest, fun _ => h.tick.plain⟩

/-- What was over at an instant still is. -/
theorem filter_isExpired (hle : t ≤ now) (stored : Option Record) :
    ((stored.filter fun r => !r.isExpired t).filter fun r => !r.isExpired now) =
      stored.filter fun r => !r.isExpired now := by
  cases stored with
  | none => rfl
  | some r =>
    by_cases hend : r.expireAt ≤ t
    · simp [Option.filter, Record.isExpired, hend, le_trans hend hle]
    · simp [Option.filter, Record.isExpired, hend]

theorem Mirrors.purge (h : Mirrors space policy t s m) (hle : t ≤ now) :
    Mirrors space policy now s (m.purge now) where
  stocked := h.stocked.purge now
  ordered := h.ordered.keep _
  readable e he := h.readable e (List.mem_filter.mp he).1
  get?_eq now' hle' htick k := by
    rw [h.get?_eq now' (le_trans hle hle') htick, Counter.Memory.find?_purge h.ordered,
      filter_isExpired hle']

/-- At the instant of a call the server finds what memory finds. -/
theorem Mirrors.get?_purge (h : Mirrors space policy t s m) (hle : t ≤ now) (htick : now.Tick)
    (k : Key) :
    s.get? now (counterKey space k) = ((m.purge now).find? k).map Record.codec.toText := by
  rw [h.get?_eq now hle htick, Counter.Memory.find?_purge h.ordered]

theorem Mirrors.decoded_get? (h : Mirrors space policy t s m) (hle : t ≤ now) (htick : now.Tick)
    (k : Key) :
    decoded Record.codec (s.get? now (counterKey space k)) = .ok ((m.purge now).find? k) := by
  rw [h.get?_purge hle htick]
  cases hfind : (m.purge now).find? k with
  | none => rfl
  | some r =>
    have hread := (h.purge hle).readable _ (Table.mem_of_find? hfind)
    rw [Option.map_some, decoded, hread]

/-- A record that ends later than it is written is mirrored to its end. -/
theorem Mirrors.put (h : Mirrors space policy now s m) (htick : now.Tick) (hkept : Kept policy r)
    (hlt : now < r.expireAt) (hread : Readable (m.put r)) :
    Mirrors space policy now (s.put space now r) (m.put r) where
  stocked := h.stocked.put hkept
  ordered := h.ordered.insert _ _
  readable := hread
  get?_eq now' hle' htick' k := by
    by_cases hkey : k.storageKey = r.key.storageKey
    · rw [Server.get?_put hkey, Counter.Memory.find?_put m hkey, Option.filter_some]
      simp only [Instant.lt_goneAt_iff htick htick' hkept.sharp.expireAt hlt, Record.isExpired]
      by_cases hlive : now' < r.expireAt
      · simp [hlive]
      · simp [hlive, not_lt.mp hlive]
    · rw [Server.get?_put_ne hkey, Counter.Memory.find?_put_ne m hkey, h.get?_eq now' hle' htick']

theorem Mirrors.erase (h : Mirrors space policy t s m) (k : Key) :
    Mirrors space policy t (s.erase space k) (m.erase k) where
  stocked := h.stocked.erase k
  ordered := h.ordered.erase _
  readable e he := h.readable e (List.mem_filter.mp he).1
  get?_eq now hle htick k' := by
    by_cases hkey : k'.storageKey = k.storageKey
    · rw [Server.get?_erase hkey, Counter.Memory.find?_congr _ hkey, Counter.Memory.find?_erase]
      rfl
    · rw [Server.get?_erase_ne hkey, Counter.Memory.find?_erase_ne m hkey, h.get?_eq now hle htick]

/-! ### Events and runs -/

/-- What a failure leaves is a record that failures leave, and ends later. -/
theorem kept_nextRecord {e : Key × Event × Instant} (he : Suited policy e)
    (hm : Stocked (Kept policy) m) :
    Kept policy (nextRecord (policy e.1) e.1 e.2.2 (m.find? e.1)) ∧
      e.2.2 < (nextRecord (policy e.1) e.1 e.2.2 (m.find? e.1)).expireAt := by
  have hgoesOn : ∀ r ∈ m.find? e.1, (policy e.1).GoesOn r := fun r hr => by
    obtain ⟨hkey, hkept⟩ := hm.find? hr
    exact hkey ▸ hkept.goesOn
  have hsharp : ∀ r ∈ m.find? e.1, r.Sharp := fun r hr => (hm.find? hr).2.sharp
  refine ⟨⟨?_, Policy.sharp_nextRecord he.wellConfigured he.inMillis he.tick.sharp hsharp⟩,
    (Policy.lasts_nextRecord he.wellConfigured he.serves hgoesOn).lt_expireAt⟩
  rw [Counter.Engine.nextRecord_key fun r hr => (hm.find? hr).1]
  exact Policy.goesOn_nextRecord he.wellConfigured he.serves hgoesOn

/-- An event is answered alike, and leaves the server a mirror of memory. -/
theorem Mirrors.next (h : Mirrors space policy t s m) {e : Key × Event × Instant}
    (he : Suited policy e) (hle : t ≤ e.2.2) (hread : Readable ((memory policy).next e m).2) :
    ((server space policy).next e s).1 = ((memory policy).next e m).1 ∧
      Mirrors space policy e.2.2 ((server space policy).next e s).2
        ((memory policy).next e m).2 := by
  have hpurged := h.purge hle
  have hfound := h.decoded_get? hle he.tick e.1
  have hgot := h.get?_purge hle he.tick e.1
  have hkept := kept_nextRecord he hpurged.stocked
  have hp := he.wellConfigured.not_misconfigured
  have htick := he.tick
  obtain ⟨k, event, now⟩ := e
  simp only at hpurged hfound hgot hkept hp htick
  cases event with
  | evaluated =>
    simp only [server, memory, counters, Counter.Engine.counter, Server.run_evaluate hp hfound,
      Counter.Engine.run_evaluate hp]
    exact ⟨trivial, hpurged⟩
  | failed =>
    have htaken : (s.get? now (counterKey space k)).isSome = ((m.purge now).find? k).isSome := by
      rw [hgot, Option.isSome_map]
    have hserver := Server.run_recordFailure hp hfound htaken fun _ hr =>
      hpurged.stocked.keyed.find? hr
    simp only [server, memory, counters, Counter.Engine.counter, hserver,
      Counter.Engine.run_recordFailure hp hpurged.stocked.keyed] at hread ⊢
    exact ⟨trivial, hpurged.put htick hkept.1 hkept.2 hread⟩
  | succeeded =>
    refine ⟨rfl, ?_⟩
    simp only [server, memory, counters, Counter.Engine.counter, recordSuccess]
    split
    · exact hpurged.erase k
    · exact hpurged
  | removed => exact ⟨rfl, hpurged.erase k⟩
  | purged => exact ⟨rfl, hpurged.purge (le_refl now)⟩

/-- Whatever memory holds in the course of a run can be read again. -/
def ReadsBack (policy : Key → Policy) (m : Memory) (es : List (Key × Event × Instant)) : Prop :=
  ∀ es', es' <+: es → Readable ((memory policy).after m es')

/-- From a mirror on, a run is answered alike, and every decision is made. -/
theorem Mirrors.answers (h : Mirrors space policy t s m) {es : List (Key × Event × Instant)}
    (hes : ∀ e ∈ es, Suited policy e) (hlater : ∀ e ∈ es, t ≤ e.2.2)
    (hclock : es.Pairwise fun e e' => e.2.2 ≤ e'.2.2) (hread : ReadsBack policy m es) :
    (server space policy).answers s es = (memory policy).answers m es ∧
      ∀ x ∈ (memory policy).answers m es, ∀ y ∈ x, ∃ d, y = .ok d := by
  induction es generalizing t s m with
  | nil => exact ⟨rfl, fun _ hx => by cases hx⟩
  | cons e rest ih =>
    obtain ⟨he, hrest⟩ := List.forall_mem_cons.mp hes
    obtain ⟨hle, -⟩ := List.forall_mem_cons.mp hlater
    obtain ⟨hnow, hfollow⟩ := List.pairwise_cons.mp hclock
    have hread' : ReadsBack policy ((memory policy).next e m).2 rest := fun es' hes' =>
      hread (e :: es') (List.cons_prefix_cons.mpr ⟨rfl, hes'⟩)
    obtain ⟨hanswer, hmirrors⟩ := h.next he hle (hread' [] (List.nil_prefix ..))
    obtain ⟨hanswers, hmade⟩ := ih hmirrors hrest hnow hfollow hread'
    have hdecides : Counter.Engine.Decides (policy e.1) e.2 ((memory policy).next e m).1 :=
      Counter.Engine.decides_next ((h.purge hle).stocked.mono fun _ hr => hr.goesOn)
        ⟨he.wellConfigured, he.serves⟩
    refine ⟨by rw [Machine.answers, Machine.answers, hanswer, hanswers],
      List.forall_mem_cons.mpr ⟨fun y hy => ?_, hmade⟩⟩
    obtain ⟨d, hd, -⟩ := hdecides.decided y hy
    exact ⟨d, hd⟩

/-- **The engine decides the same over the server as in memory.** Over any run on any
counters, at instants that do not decrease, the decisions are the same if all policies make
sense and count in whole milliseconds, as the clock does; and every one of them is made. -/
theorem decisions_agree (space : String) (policy : Key → Policy)
    (es : List (Key × Event × Instant)) (hes : ∀ e ∈ es, Suited policy e)
    (hclock : es.Pairwise fun e e' => e.2.2 ≤ e'.2.2) (hread : ReadsBack policy {} es) :
    (server space policy).answers {} es = (memory policy).answers {} es ∧
      ∀ x ∈ (memory policy).answers {} es, ∀ y ∈ x, ∃ d, y = .ok d := by
  have hfirst : ∀ e ∈ es, Instant.earliest ≤ e.2.2 := by
    intro e he
    have hplain := (hes e he).tick.plain
    exact (Instant.Plain.le_iff (by decide) hplain).mpr hplain.2.1
  exact (mirrors_empty space policy .earliest).answers hes hfirst hclock hread

/-! ### A lock, and what comes after it -/

/-- One try to log in, and then a lock. -/
def oneTry (lockout : Duration) : Policy := .login ⟨1, lockout, .seconds 600⟩

/-- The counter of one subject. -/
def alice : Key := ⟨.login, { reference := .domain "acme", subject := "alice" }⟩

/-- A failure, and questions after it. -/
def failedThenAsked (t : Instant) (us : List Instant) : List (Key × Event × Instant) :=
  (alice, .failed, t) :: us.map fun u => (alice, .evaluated, u)

/-- What the decisions of a run let through. -/
def allowed (answers : List (Option (Except Store.Error Counter.Decision))) : List (Option Bool) :=
  answers.map fun x => (x.bind Except.toOption).map (·.allowed)

/-- The record of a lock. -/
def locked (t e : Instant) : Record where
  key := alice
  attempts := 1
  tokensLeft := 0
  allowRequest := false
  windowStart := t
  createdAt := t
  updatedAt := t
  expireAt := e

/-- The value that characters stand for. -/
def readChars {α : Type} (c : Json.Codec α) (s : List Char) : Option α :=
  let d := Json.Draft.ofTokens (Json.Token.ofText s)
  (c.read .text Json.Codec.levels d.1).toOption.filter fun _ => d.2.isEmpty

/-- What can be read from characters can be read from the text of them. -/
theorem ofText_toText_of_readChars {α : Type} {c : Json.Codec α} {a : α}
    (h : readChars c ((c.encode a).write []) = some a) : c.ofText (c.toText a) = .ok a := by
  obtain ⟨hread, hrest⟩ := Option.filter_eq_some_iff.mp h
  rw [Json.Codec.ofText, Json.Codec.toText, Json.toText, String.toList_ofList]
  generalize Json.Draft.ofTokens _ = d at hread hrest ⊢
  cases hvalue : c.read .text Json.Codec.levels d.1 with
  | error e =>
    rw [hvalue] at hread
    cases hread
  | ok b =>
    rw [hvalue] at hread
    cases hread
    simp [hvalue, bind, Except.bind, hrest]

/-- A lock reads back if its record is all that is stored in the course of a run. -/
theorem readsBack_of_locked {es : List (Key × Event × Instant)} {e : Instant}
    (hread : readChars Record.codec ((Record.codec.encode (locked t e)).write []) =
      some (locked t e))
    (h : ∀ n ≤ es.length, ∀ x ∈ ((memory policy).after {} (es.take n)).records.toList,
      x.2 = locked t e) :
    ReadsBack policy {} es := by
  intro es' hes' x hx
  rw [List.prefix_iff_eq_take.mp hes'] at hx
  rw [h es'.length hes'.length_le x hx]
  exact ofText_toText_of_readChars hread

/-- A lock of a second is there for the last millisecond of it, and no longer. -/
theorem decisions_agree_about_a_lock :
    let policy := fun _ : Key => oneTry (.seconds 1)
    let es := failedThenAsked (.ofMillis 0) [.ofMillis 999, .ofMillis 1000]
    ((∀ e ∈ es, Suited policy e) ∧ (es.Pairwise fun e e' => e.2.2 ≤ e'.2.2) ∧
      ReadsBack policy {} es) ∧
    (server "authguard" policy).answers {} es = (memory policy).answers {} es ∧
      allowed ((memory policy).answers {} es) = [some false, some false, some true] := by
  intro policy es
  have hes : ∀ e ∈ es, Suited policy e := fun e he =>
    ⟨by decide, ⟨by decide, by decide⟩, by revert e; decide⟩
  have hclock : es.Pairwise fun e e' => e.2.2 ≤ e'.2.2 := by decide
  have hread : ReadsBack policy {} es :=
    readsBack_of_locked (t := .ofMillis 0) (e := .ofMillis 1000) (by decide +kernel)
      (by decide +kernel)
  exact ⟨⟨hes, hclock, hread⟩, (decisions_agree "authguard" policy es hes hclock hread).1,
    by decide +kernel⟩

/-- The server drops a lock up to a millisecond too early where the lock does not end on a
whole millisecond, and where it ends with the calendar. -/
theorem decisions_can_differ :
    (let policy := fun _ : Key => oneTry ⟨1500000⟩
      let es := failedThenAsked (.ofMillis 0) [.ofMillis 1]
      ((oneTry ⟨1500000⟩).WellConfigured ∧ (∀ e ∈ es, e.2.2.Tick) ∧
        (es.Pairwise fun e e' => e.2.2 ≤ e'.2.2) ∧ ReadsBack policy {} es) ∧
      allowed ((memory policy).answers {} es) = [some false, some false] ∧
        allowed ((server "authguard" policy).answers {} es) = [some false, some true]) ∧
    (let policy := fun _ : Key => oneTry (.seconds 1)
      let es := failedThenAsked (.ofMillis 8210266876799499) [.ofMillis 8210266876799999]
      ((oneTry (.seconds 1)).WellConfigured ∧
        (∀ e ∈ es, e.2.2.Plain ∧ e.2.2.nanos % 1000000 = 0) ∧
        (es.Pairwise fun e e' => e.2.2 ≤ e'.2.2) ∧ ReadsBack policy {} es) ∧
      allowed ((memory policy).answers {} es) = [some false, some false] ∧
        allowed ((server "authguard" policy).answers {} es) = [some false, some true]) := by
  refine ⟨⟨⟨by decide, by decide, by decide, ?_⟩, by decide +kernel, by decide +kernel⟩,
    ⟨⟨by decide, by decide, by decide, ?_⟩, by decide +kernel, by decide +kernel⟩⟩
  · exact readsBack_of_locked (t := .ofMillis 0) (e := ⟨1500000, 0⟩) (by decide +kernel)
      (by decide +kernel)
  · exact readsBack_of_locked (t := .ofMillis 8210266876799499) (e := .latest)
      (by decide +kernel) (by decide +kernel)

end Mirror

end Gatehouse.Redis
