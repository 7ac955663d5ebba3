import Gatehouse.Proofs.Flow.Memory
import Gatehouse.Proofs.Machine
import Gatehouse.Proofs.Time.Order
import Gatehouse.Redis.Server
import Mathlib.Data.List.DropRight

/-! Contexts last written.

In memory every version of a transaction is kept, and a lookup finds the highest; on the
server a version takes the place of the one before it, and a lookup finds the one last
written, whatever its version. So the two agree as long as versions are written in their
order, and no longer: `context_lookups` says what each finds, over any run, and that they
find the same exactly when at every lookup the version last written is a highest one.
Written the other way round, version 1 is found on the server while version 2 is found in
memory (`lookups_can_differ`). -/
namespace Gatehouse.Redis

open Gatehouse.Flow (Context Request)
open Gatehouse.Flow.Memory (IsTop highest)

/-! ### The two stores -/

/-- What a call is answered, if it is a lookup. -/
def lookup : (r : Request) → r.Answer → Option (Except Store.Error (Option Context))
  | .findLast _, x => some x
  | _, _ => none

/-- Lookups in memory. -/
def memory :
    Machine (Request × Instant) Flow.Memory (Option (Except Store.Error (Option Context))) where
  next e s :=
    let r := Flow.Memory.answer e.1 s
    (lookup e.1 r.1, r.2)

/-- Lookups on the server, whose clock is the caller's. -/
def server (space : String) :
    Machine (Request × Instant) Server (Option (Except Store.Error (Option Context))) where
  next e s :=
    let r := Store.Program.run (Server.answer e.2) (flow space e.2 e.1) s
    (lookup e.1 r.1, r.2)

/-- A call of a run is a lookup of a transaction. -/
def Finds (es : List (Request × Instant)) (i : Nat) (tx : String) : Prop :=
  ∃ now, es[i]? = some (.findLast tx, now)

/-! ### What was written -/

/-- The version last written among the highest, where there is any. -/
def Tops (versions : List Context) : Option Context → Prop
  | some c => IsTop versions c
  | none => versions = []

/-- Whether a call removes a transaction. -/
def removes (tx : String) : Request → Bool
  | .delete t => t == tx
  | _ => false

/-- What a call writes of a transaction. -/
def written (tx : String) : Request → Option Context
  | .create c => if c.transactionId = tx then some c else none
  | _ => none

/-- What was written of a transaction since it was last removed, and when. -/
def writes (tx : String) (es : List (Request × Instant)) : List (Context × Instant) :=
  (es.rtakeWhile fun e => !removes tx e.1).filterMap fun e => (written tx e.1).map (·, e.2)

/-- The versions of a transaction that were written since it was last removed. -/
def standing (tx : String) (es : List (Request × Instant)) : List Context :=
  (writes tx es).map (·.1)

/-- How the server holds a context that was written at an instant. -/
def heldFor (w : Context × Instant) : Held where
  value := Context.codec.toText w.1
  goneAt := w.2.reading + timeToLive w.1.expireAt w.2 * Duration.nanosPerMilli

/-- No context that a run writes expires within the run. -/
def Unexpired (es : List (Request × Instant)) : Prop :=
  ∀ e ∈ es, ∀ c, e.1 = .create c → ∀ e' ∈ es, e'.2 < c.expireAt

/-- No time to live that a run begins is over within the run. Times to live are whole
milliseconds, so a context is gone from the server up to a millisecond before it expires. -/
def Lasting (es : List (Request × Instant)) : Prop :=
  es.Pairwise fun e e' => ∀ c, e.1 = .create c → e'.2.reading < (heldFor (c, e.2)).goneAt

/-- Whatever is written in a run can be read again. -/
def Readable (es : List (Request × Instant)) : Prop :=
  ∀ e ∈ es, ∀ c, e.1 = .create c → Context.codec.ofText (Context.codec.toText c) = .ok c

section Writes
variable {tx : String} {es : List (Request × Instant)}

theorem writes_concat (e : Request × Instant) :
    writes tx (es ++ [e]) =
      if removes tx e.1 then [] else writes tx es ++ ((written tx e.1).map (·, e.2)).toList := by
  rw [writes, List.rtakeWhile_concat]
  cases removes tx e.1 with
  | true => rfl
  | false =>
    simp only [Bool.not_false, if_true, List.filterMap_append]
    cases h : written tx e.1 <;> simp [h, writes]

/-- What was written was written by a call of the run. -/
theorem mem_of_mem_writes {w : Context × Instant} (h : w ∈ writes tx es) :
    (.create w.1, w.2) ∈ es := by
  obtain ⟨⟨r, now⟩, he, hw⟩ := List.mem_filterMap.mp h
  have hmem := (List.rtakeWhile_suffix _ _).subset he
  cases r with
  | create c =>
    obtain ⟨c', hc', rfl⟩ := Option.map_eq_some_iff.mp hw
    simp only [written] at hc'
    split at hc'
    · cases hc'
      exact hmem
    · cases hc'
  | _ => cases hw

/-- Outside leap seconds, contexts last that expire a millisecond or more after every call. -/
theorem lasting_of_expireAt (hplain : ∀ e ∈ es, e.2.Plain)
    (hclock : es.Pairwise fun e e' => e.2 ≤ e'.2)
    (hexpire : ∀ e ∈ es, ∀ c, e.1 = .create c → c.expireAt.Plain ∧
      ∀ e' ∈ es, e'.2.nanos + 1000000 ≤ c.expireAt.nanos) : Lasting es := by
  refine List.Pairwise.imp_of_mem (fun {e e'} he he' hle c hc => ?_) hclock
  obtain ⟨hend, hlate⟩ := hexpire e he c hc
  have hmillis := hend.millis_since (hplain e he) (by have := hlate e he; omega)
  have hnanos := Instant.nanos_le_of_le hle
  have hleft := hlate e' he'
  have hreading := Instant.reading_of_regular (hplain e he).1
  have hreading' := Instant.reading_of_regular (hplain e' he').1
  simp only [heldFor, timeToLive, hmillis, hreading, hreading', Duration.nanosPerMilli]
  omega

end Writes

/-! ### What the stores hold -/

section Holds
variable {space tx : String} {es : List (Request × Instant)}

/-- Memory keeps all that was written of a transaction since it was last removed. -/
theorem versions_after (tx : String) (es : List (Request × Instant)) :
    (memory.after {} es).versions tx = standing tx es := by
  induction es using List.reverseRecOn with
  | nil => rfl
  | append_singleton es e ih =>
    obtain ⟨r, now⟩ := e
    rw [Machine.after_append, standing, writes_concat]
    cases r with
    | findLast | pause =>
      show (memory.after {} es).versions tx = _
      rw [ih, standing]
      simp [removes, written]
    | create c =>
      show ((memory.after {} es).put c).versions tx = _
      rw [Flow.Memory.versions_put, ih, standing]
      simp only [removes, written]
      split <;> simp
    | delete t =>
      show (⟨(memory.after {} es).contexts.erase t⟩ : Flow.Memory).versions tx = _
      rw [Flow.Memory.versions_erase, ih, standing]
      by_cases h : t = tx <;> simp [removes, written, h]

theorem contextKey_injective {tx' : String} (h : contextKey space tx = contextKey space tx') :
    tx = tx' := (String.append_right_inj _).mp h

/-- The server keeps what was last written of a transaction since it was last removed. -/
theorem entries_after (space tx : String) (es : List (Request × Instant)) :
    ((server space).after {} es).entries.find? (contextKey space tx) =
      (writes tx es).getLast?.map heldFor := by
  induction es using List.reverseRecOn with
  | nil => rfl
  | append_singleton es e ih =>
    obtain ⟨r, now⟩ := e
    rw [Machine.after_append, writes_concat]
    cases r with
    | findLast | pause =>
      show ((server space).after {} es).entries.find? _ = _
      rw [ih]
      simp [removes, written]
    | create c =>
      show Table.find? (Table.insert _ (contextKey space c.transactionId) (heldFor (c, now))) _ = _
      by_cases h : c.transactionId = tx
      · subst h
        rw [Table.find?_insert_self]
        simp [removes, written]
      · rw [Table.find?_insert_ne _ fun heq => h (contextKey_injective heq).symm, ih]
        simp [removes, written, h]
    | delete t =>
      show Table.find? (Table.erase _ (contextKey space t)) _ = _
      by_cases h : t = tx
      · subst h
        rw [Table.find?_erase_self]
        simp [removes]
      · rw [Table.find?_erase_ne _ fun heq => h (contextKey_injective heq).symm, ih]
        simp [removes, written, h]

end Holds

/-! ### What lookups find -/

section Finds
variable {space tx : String} {es : List (Request × Instant)} {i : Nat}

/-- In memory a lookup finds the version last written among the highest. -/
theorem lookup_memory (h : Finds es i tx) :
    (memory.answers {} es)[i]? = some (some (.ok (highest (standing tx (es.take i))))) := by
  obtain ⟨now, hcall⟩ := h
  rw [memory.answers_getElem? {} hcall, ← versions_after]
  rfl

/-- On the server a lookup finds the version last written. -/
theorem lookup_server (space : String) (hlasting : Lasting es) (hreadable : Readable es)
    (h : Finds es i tx) :
    ((server space).answers {} es)[i]? = some (some (.ok (standing tx (es.take i)).getLast?)) := by
  obtain ⟨now, hcall⟩ := h
  rw [(server space).answers_getElem? {} hcall]
  show some (some (decoded Context.codec (Server.get? _ now (contextKey space tx)))) = _
  rw [Server.get?, entries_after, standing, List.getLast?_map]
  cases hlast : (writes tx (es.take i)).getLast? with
  | none => rfl
  | some w =>
    have hmem : (.create w.1, w.2) ∈ es.take i := mem_of_mem_writes (List.mem_of_getLast? hlast)
    have hread := hreadable _ (List.mem_of_mem_take hmem) _ rfl
    have hheld : now.reading < (heldFor w).goneAt := by
      obtain ⟨k, hk, hkth⟩ := List.mem_take_iff_getElem.mp hmem
      obtain ⟨hi, hith⟩ := List.getElem?_eq_some_iff.mp hcall
      have hlater := List.pairwise_iff_getElem.mp hlasting k i (by omega) hi (by omega) w.1
      rw [hkth, hith] at hlater
      exact hlater rfl
    simp only [Option.map_some, Option.filter_some, decide_eq_true hheld, if_true]
    rw [heldFor, decoded, hread]

/-- The stores answer alike exactly when at every lookup what memory finds was written last. -/
theorem answers_eq_iff (space : String) (hlasting : Lasting es) (hreadable : Readable es) :
    (server space).answers {} es = memory.answers {} es ↔
      ∀ i tx, Finds es i tx →
        highest (standing tx (es.take i)) = (standing tx (es.take i)).getLast? := by
  refine ⟨fun heq i tx hfinds => ?_, fun h => List.ext_getElem? fun i => ?_⟩
  · have hanswer := lookup_server space hlasting hreadable hfinds
    rw [heq, lookup_memory hfinds] at hanswer
    exact Except.ok.inj (Option.some.inj (Option.some.inj hanswer))
  · cases hcall : es[i]? with
    | none =>
      have hlength : es.length ≤ i := List.getElem?_eq_none_iff.mp hcall
      rw [List.getElem?_eq_none (by rwa [Machine.length_answers]),
        List.getElem?_eq_none (by rwa [Machine.length_answers])]
    | some e =>
      obtain ⟨r, now⟩ := e
      cases r with
      | findLast tx =>
        have hfinds : Finds es i tx := ⟨now, hcall⟩
        rw [lookup_server space hlasting hreadable hfinds, lookup_memory hfinds, h i tx hfinds]
      | create | delete | pause =>
        rw [Machine.answers_getElem? _ _ hcall, Machine.answers_getElem? _ _ hcall]
        rfl

theorem tops_highest (l : List Context) : Tops l (highest l) := by
  cases htop : highest l with
  | none => exact Flow.Memory.highest_eq_none_iff.mp htop
  | some c => exact Flow.Memory.isTop_of_highest htop

/-- Every lookup finds in memory the version last written among the highest, and on the server
the version last written; so they find the same exactly when that one is a highest. -/
theorem context_lookups (space : String) (hlasting : Lasting es) (hreadable : Readable es) :
    (∀ i tx, Finds es i tx →
      (∃ found, (memory.answers {} es)[i]? = some (some (.ok found)) ∧
        Tops (standing tx (es.take i)) found) ∧
      ((server space).answers {} es)[i]? =
        some (some (.ok (standing tx (es.take i)).getLast?))) ∧
    ((server space).answers {} es = memory.answers {} es ↔
      ∀ i tx, Finds es i tx → ∀ c ∈ (standing tx (es.take i)).getLast?,
        ∀ x ∈ standing tx (es.take i), x.version ≤ c.version) := by
  refine ⟨fun i tx hfinds => ⟨⟨_, lookup_memory hfinds, tops_highest _⟩, ?_⟩, ?_⟩
  · exact lookup_server space hlasting hreadable hfinds
  · simp only [answers_eq_iff space hlasting hreadable, Flow.Memory.highest_eq_getLast?_iff]

end Finds

/-! ### Versions written in the wrong order -/

/-- Two versions of a transaction, both written when 1970 began and kept for five minutes. -/
def version (n : Nat) : Context where
  transactionId := "tx"
  version := n
  createdAt := ⟨0, 0⟩
  expireAt := ⟨300000000000, 0⟩

/-- Two versions are written, and then there is a lookup. -/
def twoVersions (first second : Nat) : List (Request × Instant) := [
  (.create (version first), ⟨0, 0⟩),
  (.create (version second), ⟨0, 0⟩),
  (.findLast "tx", ⟨0, 0⟩)]

section TwoVersions
variable (first second : Nat)

theorem nanos_twoVersions : ∀ e ∈ twoVersions first second, e.2 = ⟨0, 0⟩ := by
  simp [twoVersions]

theorem expireAt_twoVersions : ∀ e ∈ twoVersions first second, ∀ c, e.1 = .create c →
    c.expireAt = ⟨300000000000, 0⟩ := by
  intro e he c hc
  simp only [twoVersions, List.mem_cons, List.not_mem_nil, or_false] at he
  rcases he with rfl | rfl | rfl <;> cases hc <;> rfl

theorem unexpired_twoVersions : Unexpired (twoVersions first second) := by
  intro e he c hc e' he'
  rw [expireAt_twoVersions first second e he c hc, nanos_twoVersions first second e' he']
  decide

theorem lasting_twoVersions : Lasting (twoVersions first second) := by
  have hnow := nanos_twoVersions first second
  refine lasting_of_expireAt (fun e he => hnow e he ▸ by decide) (by simp [twoVersions]) ?_
  intro e he c hc
  rw [expireAt_twoVersions first second e he c hc]
  exact ⟨by decide, fun e' he' => hnow e' he' ▸ by decide⟩

end TwoVersions

/-- The text of a version whose number is written so. -/
def versionText (number : String) : String :=
  "\x7b\"transaction_id\":\"tx\",\"version\":" ++ number ++ ",\"data\":\x7b\x7d," ++
    "\"created_at\":\"1970-01-01T00:00:00Z\",\"expire_at\":\"1970-01-01T00:05:00Z\"\x7d"

theorem toText_version_one : Context.codec.toText (version 1) = versionText "1" := by
  decide +kernel

theorem toText_version_two : Context.codec.toText (version 2) = versionText "2" := by
  decide +kernel

set_option maxRecDepth 20000 in
theorem ofText_one : Context.codec.ofText (versionText "1") = .ok (version 1) := by
  rfl

set_option maxRecDepth 20000 in
theorem ofText_two : Context.codec.ofText (versionText "2") = .ok (version 2) := by
  rfl

theorem readable_twoVersions : Readable (twoVersions 2 1) := by
  intro e he c hc
  simp only [twoVersions, List.mem_cons, List.not_mem_nil, or_false] at he
  rcases he with rfl | rfl | rfl <;> cases hc
  · rw [toText_version_two, ofText_two]
  · rw [toText_version_one, ofText_one]

/-- The server finds the lower version, which was written last. -/
theorem server_finds_lower :
    ((server "authguard").answers {} (twoVersions 2 1))[2]? =
      some (some (.ok (some (version 1)))) :=
  ((context_lookups "authguard" (lasting_twoVersions 2 1) readable_twoVersions).1 2 "tx"
    ⟨⟨0, 0⟩, rfl⟩).2

/-- The stores can differ, though no context expires and every context can be read. -/
theorem lookups_can_differ : ¬∀ (space : String) (es : List (Request × Instant)), Unexpired es →
    Lasting es → Readable es → (server space).answers {} es = memory.answers {} es := by
  intro h
  have heq := h "authguard" (twoVersions 2 1) (unexpired_twoVersions 2 1) (lasting_twoVersions 2 1)
    readable_twoVersions
  have hfound := (answers_eq_iff "authguard" (lasting_twoVersions 2 1) readable_twoVersions).mp heq
    2 "tx" ⟨⟨0, 0⟩, rfl⟩
  exact absurd (congrArg (Option.map Context.version) hfound) (by decide)

end Gatehouse.Redis
