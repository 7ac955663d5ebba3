import Gatehouse.Json.Codec
import Gatehouse.Proofs.Table

/-! What codecs read.

Whatever draft a codec reads, in whatever manner, the value has a property that its type alone
does not give it (`Codec.Yields`): numbers fit the width they are read with, and the entries of a
table are in order. A record has a property if the blank one has it and each of its fields keeps
it (`yields_record`), since nothing else is done to a record while it is read. -/
namespace Gatehouse.Json.Codec
variable {α β σ τ : Type}

/-! ### Outcomes -/

section Outcomes
variable {ε ε' : Type} {x : Except ε α} {b : β}

theorem bind_eq_ok_iff {f : α → Except ε β} : x >>= f = .ok b ↔ ∃ a, x = .ok a ∧ f a = .ok b := by
  cases x with
  | error e => simp [bind, Except.bind]
  | ok a => simp [bind, Except.bind]

theorem map_eq_ok_iff {f : α → β} : x.map f = .ok b ↔ ∃ a, x = .ok a ∧ f a = b := by
  cases x <;> simp [Except.map]

theorem mapError_eq_ok_iff {f : ε → ε'} {a : α} : x.mapError f = .ok a ↔ x = .ok a := by
  cases x with
  | error e => exact ⟨nofun, nofun⟩
  | ok b => exact ⟨fun h => congrArg _ (Except.ok.inj h), fun h => congrArg _ (Except.ok.inj h)⟩

/-- What is done after a condition has been seen to is done in the end. -/
theorem eq_ok_of_guarded {p : Prop} [Decidable p] {y : Except ε α} {z : Except ε β}
    (h : (if p then y >>= fun _ => z else z) = .ok b) : z = .ok b := by
  split at h
  · obtain ⟨-, -, hz⟩ := bind_eq_ok_iff.mp h
    exact hz
  · exact h

end Outcomes

/-- Whatever a codec reads has a property. -/
def Yields (c : Codec α) (P : α → Prop) : Prop := ∀ m room d a, c.read m room d = .ok a → P a

variable {c : Codec α} {P : α → Prop}

theorem yields_nat (bound : Nat) : (nat bound).Yields (· < bound) := by
  intro m room d a h
  cases d with
  | int i =>
    simp only [nat] at h
    split at h
    · next hrange =>
      cases h
      omega
    · cases h
  | _ => cases h

theorem yields_int64 : int64.Yields fun i => -Nat.pow 2 63 ≤ i ∧ i < Nat.pow 2 63 := by
  intro m room d a h
  cases d with
  | int i =>
    simp only [int64, int] at h
    split at h
    · next hrange =>
      cases h
      exact ⟨hrange.1, Int.lt_of_le_sub_one hrange.2⟩
    · cases h
  | _ => cases h

theorem yields_option (h : c.Yields P) : (option c).Yields fun o => ∀ a ∈ o, P a := by
  intro m room d o hread
  cases d with
  | null =>
    cases hread
    exact fun _ ha => nomatch ha
  | _ =>
    obtain ⟨a, ha, rfl⟩ := map_eq_ok_iff.mp hread
    exact fun _ ha' => Option.some.inj ha' ▸ h m room _ a ha

/-! ### Tables -/

theorem each_of_readEntries (h : c.Yields P) {m : Manner} {room : Nat}
    {members : List (Except Fault String × Draft)} {t u : Table α} (ht : t.Each P)
    (hread : readEntries c m room members t = .ok u) : u.Each P := by
  induction members generalizing t with
  | nil =>
    cases hread
    exact ht
  | cons e rest ih =>
    obtain ⟨key, d⟩ := e
    obtain ⟨key, -, hread⟩ := bind_eq_ok_iff.mp hread
    obtain ⟨a, ha, hread⟩ := bind_eq_ok_iff.mp hread
    exact ih (ht.insert key (h m room d a (mapError_eq_ok_iff.mp ha))) hread

/-- What goes down a level is read there. -/
theorem of_descend {room : Nat} {inner : Nat → Except Fault α} {a : α}
    (h : descend room inner = .ok a) : ∃ room, inner room = .ok a := by
  cases room with
  | zero => cases h
  | succ room => exact ⟨room, h⟩

theorem yields_table (h : c.Yields P) : (table c).Yields (Table.Each P) := by
  intro m room d t hread
  cases d with
  | obj members ending =>
    obtain ⟨room, hread⟩ := of_descend hread
    obtain ⟨u, hu, hread⟩ := bind_eq_ok_iff.mp hread
    obtain ⟨-, -, hread⟩ := bind_eq_ok_iff.mp hread
    cases hread
    exact each_of_readEntries h (Table.each_empty P) hu
  | keyless d =>
    obtain ⟨room, hread⟩ := of_descend hread
    cases hread
  | _ => cases hread

/-! ### Fields -/

/-- Whatever is read into a record by one of its fields, a property of the record is kept. -/
def Preserved (P : σ → Prop) (fields : List (FieldCodec σ)) : Prop :=
  ∀ f ∈ fields, ∀ m room d s s', P s → f.read m room d s = .ok s' → P s'

variable {Q : σ → Prop} {fields : List (FieldCodec σ)}

theorem Preserved.nil : Preserved Q [] := fun _ h => nomatch h

theorem Preserved.field {name : String} {absence : Absence} {get : σ → α} {set : α → σ → σ}
    (hc : c.Yields P) (hset : ∀ a s, P a → Q s → Q (set a s)) (rest : Preserved Q fields) :
    Preserved Q (field name absence c get set :: fields) := by
  refine List.forall_mem_cons.mpr ⟨fun m room d s s' hs hread => ?_, rest⟩
  obtain ⟨a, ha, rfl⟩ := map_eq_ok_iff.mp hread
  exact hset a s (hc m room d a ha) hs

/-- A field whose value may be any of its type. -/
theorem Preserved.free {name : String} {absence : Absence} {get : σ → α} {set : α → σ → σ}
    (hset : ∀ a s, Q s → Q (set a s)) (rest : Preserved Q fields) :
    Preserved Q (Codec.field name absence c get set :: fields) :=
  .field (P := fun _ => True) (fun _ _ _ _ _ => trivial) (fun a s _ hs => hset a s hs) rest

theorem Preserved.readMembers (h : Preserved Q fields) {m : Manner} {room : Nat}
    {members : List (Except Fault String × Draft)} {seen seen' : List String} {s s' : σ} (hs : Q s)
    (hread : readMembers fields m room members seen s = .ok (seen', s')) : Q s' := by
  induction members generalizing seen s with
  | nil =>
    cases hread
    exact hs
  | cons e rest ih =>
    obtain ⟨key, d⟩ := e
    obtain ⟨key, -, hread⟩ := bind_eq_ok_iff.mp hread
    split at hread
    · exact ih hs (eq_ok_of_guarded hread)
    · next f hf =>
      obtain ⟨u, hu, hread⟩ := bind_eq_ok_iff.mp (eq_ok_of_guarded hread)
      have hmem := List.mem_of_find?_eq_some hf
      exact ih (h f hmem m room d s u hs (mapError_eq_ok_iff.mp hu)) hread

theorem Preserved.readItems (h : Preserved Q fields) {m : Manner} {room : Nat} {ending : Ending}
    {n : Nat} {items items' : List Draft} {s s' : σ} (hs : Q s)
    (hread : readItems m room ending n fields items s = .ok (items', s')) : Q s' := by
  induction fields generalizing n items s with
  | nil =>
    cases hread
    exact hs
  | cons f fields ih =>
    obtain ⟨hf, hfields⟩ := List.forall_mem_cons.mp h
    cases items with
    | nil =>
      obtain ⟨-, -, hread⟩ := bind_eq_ok_iff.mp hread
      split at hread
      · exact ih hfields hs hread
      · cases hread
    | cons d items =>
      obtain ⟨u, hu, hread⟩ := bind_eq_ok_iff.mp hread
      exact ih hfields (hf m room d s u hs (mapError_eq_ok_iff.mp hu)) hread

theorem Preserved.readOwn (h : Preserved Q fields) {m : Manner} {room : Nat}
    {members others : List (Except Fault String × Draft)} {seen seen' : List String} {s s' : σ}
    (hs : Q s) (hread : readOwn fields m room members seen s = .ok (others, seen', s')) : Q s' := by
  induction members generalizing seen s others with
  | nil =>
    cases hread
    exact hs
  | cons e rest ih =>
    obtain ⟨key, d⟩ := e
    obtain ⟨key, -, hread⟩ := bind_eq_ok_iff.mp hread
    split at hread
    · obtain ⟨x, hx, hread⟩ := bind_eq_ok_iff.mp (eq_ok_of_guarded hread)
      cases hread
      exact ih hs hx
    · next f hf =>
      obtain ⟨u, hu, hread⟩ := bind_eq_ok_iff.mp (eq_ok_of_guarded hread)
      have hmem := List.mem_of_find?_eq_some hf
      exact ih (h f hmem m room d s u hs (mapError_eq_ok_iff.mp hu)) hread

/-! ### Records -/

/-- A record has a property if the blank one has it and no field takes it away. -/
theorem yields_record {blank : σ} (hblank : Q blank) (h : Preserved Q fields) :
    (record blank fields).Yields Q := by
  intro m room d s hread
  cases d with
  | obj members ending =>
    obtain ⟨room, hread⟩ := of_descend hread
    obtain ⟨⟨seen, u⟩, hu, hread⟩ := bind_eq_ok_iff.mp hread
    obtain ⟨-, -, hread⟩ := bind_eq_ok_iff.mp hread
    obtain ⟨-, -, hread⟩ := bind_eq_ok_iff.mp hread
    cases hread
    exact h.readMembers hblank hu
  | arr items ending =>
    obtain ⟨room, hread⟩ := of_descend hread
    obtain ⟨⟨items, u⟩, hu, hread⟩ := bind_eq_ok_iff.mp hread
    obtain ⟨-, -, hread⟩ := bind_eq_ok_iff.mp hread
    cases hread
    exact h.readItems hblank hu
  | keyless d =>
    obtain ⟨room, hread⟩ := of_descend hread
    cases hread
  | _ => cases hread

/-- A record that shares its object has a property if what is read of its own gives it along
with what is read for the other. -/
theorem yields_sharing {blank : σ} {shared : Codec τ} {get : σ → τ} {set : τ → σ → σ}
    {R : τ → Prop} {P : σ → Prop} (hblank : Q blank) (h : Preserved Q fields)
    (hshared : shared.Yields R) (hset : ∀ t s, R t → Q s → P (set t s)) :
    (sharing blank shared get set fields).Yields P := by
  intro m room d s hread
  cases d with
  | obj members ending =>
    obtain ⟨room, hread⟩ := of_descend hread
    obtain ⟨⟨others, seen, u⟩, hu, hread⟩ := bind_eq_ok_iff.mp hread
    obtain ⟨-, -, hread⟩ := bind_eq_ok_iff.mp hread
    obtain ⟨-, -, hread⟩ := bind_eq_ok_iff.mp hread
    obtain ⟨t, ht, hread⟩ := bind_eq_ok_iff.mp hread
    cases hread
    exact hset t u (hshared .setAside _ _ t (mapError_eq_ok_iff.mp ht)) (h.readOwn hblank hu)
  | keyless d =>
    obtain ⟨room, hread⟩ := of_descend hread
    cases hread
  | _ => cases hread

end Gatehouse.Json.Codec
