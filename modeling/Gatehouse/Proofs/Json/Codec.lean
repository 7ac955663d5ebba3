import Gatehouse.Proofs.Json.Depth
import Gatehouse.Proofs.Time.Timestamp

/-! Codecs keep what they write.

A codec keeps a value if, from what it writes of it, it reads that value again, in whatever
manner and wherever there is room for the levels that the value has (`Codec.Keeps`); then the
value's text, too, is read back (`Keeps.ofText_toText`). What a codec keeps follows from what
its parts keep: a table keeps entries in order, and a record, read field by field into a blank
one, keeps what its fields restore (`Restored`, `keeps_record`), also where its object holds the
members of another (`keeps_sharing`). -/
namespace Gatehouse.Json.Codec
variable {α σ τ : Type} {c : Codec α} {a : α} {n k : Nat}

/-- A codec reads what it wrote of a value as that value, where there is room for so many
levels. -/
structure Keeps (c : Codec α) (n : Nat) (a : α) : Prop where
  exact : Exact (c.encode a)
  depth : (c.encode a).depth ≤ n
  read : ∀ m room, n ≤ room → c.read m room (Draft.ofJson (c.encode a)) = .ok a

theorem Keeps.mono (h : c.Keeps n a) (hk : n ≤ k) : c.Keeps k a where
  exact := h.exact
  depth := h.depth.trans hk
  read m room hroom := h.read m room (hk.trans hroom)

theorem Keeps.ofJson_encode (h : c.Keeps n a) (hn : n ≤ levels) : c.ofJson (c.encode a) = .ok a :=
  h.read .text levels hn

theorem Keeps.ofText_toText (h : c.Keeps n a) (hn : n ≤ levels) : c.ofText (c.toText a) = .ok a :=
  (c.ofText_toText h.exact).trans (h.ofJson_encode hn)

/-! ### Plain values -/

theorem keeps_bool (b : Bool) : bool.Keeps 0 b := ⟨.bool b, Nat.le_refl 0, fun _ _ _ => rfl⟩

theorem keeps_string (s : String) : string.Keeps 0 s := ⟨.str s, Nat.le_refl 0, fun _ _ _ => rfl⟩

theorem keeps_nat {bound i : Nat} (h : i < bound) (hbound : bound ≤ Nat.pow 2 64) :
    (nat bound).Keeps 0 i where
  exact := .int (by omega) (by omega)
  depth := Nat.le_refl 0
  read _ _ _ := if_pos ⟨Int.natCast_nonneg i, Int.ofNat_lt.mpr h⟩

theorem keeps_int64 {i : Int} (hlow : -Nat.pow 2 63 ≤ i) (hhigh : i < Nat.pow 2 63) :
    int64.Keeps 0 i where
  exact := .int hlow (hhigh.trans (by decide))
  depth := Nat.le_refl 0
  read _ _ _ := if_pos ⟨hlow, Int.le_sub_one_of_lt hhigh⟩

theorem keeps_instant {t : Instant} (h : t.OnClock) : instant.Keeps 0 t where
  exact := .str _
  depth := Nat.le_refl 0
  read m room _ := by
    simp only [instant, string, Draft.ofJson, bind, Except.bind, h.ofText?_toText]

theorem keeps_any {v : Json} (h : Canonical v) : any.Keeps v.depth v where
  exact := h.exact
  depth := Nat.le_refl _
  read m room hroom := by
    show (Draft.ofJson v).toJson room = _
    rw [Draft.toJson_ofJson, Draft.within, if_pos hroom, h.normal_eq]

theorem keeps_none : (option c).Keeps 0 none :=
  ⟨.null, Nat.le_refl 0, fun _ _ _ => rfl⟩

/-- A value is not taken for one that is absent, unless it is written as null. -/
theorem keeps_some (h : c.Keeps n a) (hnull : c.encode a ≠ .null) :
    (option c).Keeps n (some a) where
  exact := h.exact
  depth := h.depth
  read m room hroom := by
    have hread := h.read m room hroom
    show (option c).read m room (Draft.ofJson (c.encode a)) = _
    cases hv : c.encode a with
    | null => exact absurd hv hnull
    | _ =>
      rw [hv] at hread
      simp only [option, Draft.ofJson] at hread ⊢
      rw [hread]
      rfl

theorem keeps_optionString (s : Option String) : (option string).Keeps 0 s := by
  cases s with
  | none => exact keeps_none
  | some s => exact keeps_some (keeps_string s) Json.noConfusion

/-- A name is read back if no other has it. -/
theorem keeps_choice {name : α → String} {all : List α}
    (h : named (all.map fun a => (name a, .plain a)) (name a) = .ok a) :
    (choice name all).Keeps 0 a :=
  ⟨.str _, Nat.le_refl 0, fun _ _ _ => h⟩

/-! ### Tables -/

theorem depthMembers_map_le {l : List (String × α)} (h : ∀ e ∈ l, c.Keeps n e.2) :
    depthMembers (l.map fun e => (e.1, c.encode e.2)) ≤ n :=
  depthMembers_le_iff.mpr fun _ hv => by
    obtain ⟨e, he, rfl⟩ := List.mem_map.mp hv
    exact (h e he).depth

theorem readEntries_eq {l : List (String × α)} (h : ∀ e ∈ l, c.Keeps n e.2) (m : Manner)
    {room : Nat} (hroom : n ≤ room) {t : Table α} (ordered : (t.toList ++ l).Pairwise (·.1 < ·.1)) :
    readEntries c m room (Draft.ofMembers (l.map fun e => (e.1, c.encode e.2))) t =
      .ok ⟨t.toList ++ l⟩ := by
  induction l generalizing t with
  | nil => exact congrArg Except.ok (congrArg Table.mk (List.append_nil t.toList).symm)
  | cons e rest ih =>
    obtain ⟨key, a⟩ := e
    obtain ⟨ha, hrest⟩ := List.forall_mem_cons.mp h
    have hlast : ∀ e ∈ t.toList, e.1 < key := fun e he =>
      (List.pairwise_append.mp ordered).2.2 e he (key, a) List.mem_cons_self
    have hplace : t.insert key a = ⟨t.toList ++ [(key, a)]⟩ :=
      congrArg Table.mk (Table.place_of_forall_lt a hlast)
    rw [List.append_cons] at ordered ⊢
    simp only [List.map_cons, Draft.ofMembers, readEntries, bind, Except.bind]
    rw [show c.read m room (Draft.ofJson (c.encode a)) = .ok a from ha.read m room hroom]
    simp only [Except.mapError, hplace]
    exact ih hrest ordered

theorem keeps_table {t : Table α} (ordered : t.Ordered) (h : ∀ e ∈ t.toList, c.Keeps n e.2) :
    (table c).Keeps (n + 1) t where
  exact := .obj fun v hv => by
    obtain ⟨e, he, rfl⟩ := List.mem_map.mp hv
    exact (h e he).exact
  depth := Nat.succ_le_succ (depthMembers_map_le h)
  read m room hroom := by
    obtain ⟨room, rfl⟩ : ∃ r, room = r + 1 := ⟨room - 1, by omega⟩
    show (readEntries c m room (Draft.ofMembers _) .empty >>= fun t => _) = _
    rw [readEntries_eq (t := .empty) h m (Nat.le_of_succ_le_succ hroom) ordered]
    rfl

/-! ### Fields -/

/-- What fields write of a record, read into another one after the other, makes a third. -/
inductive Restored (n : Nat) (s : σ) : List (FieldCodec σ) → σ → σ → Prop where
  | nil {t : σ} : Restored n s [] t t
  | cons {f : FieldCodec σ} {fields : List (FieldCodec σ)} {v : Json} {t u w : σ}
    (encode : f.encode s = some v) (exact : Exact v) (depth : v.depth ≤ n)
    (read : ∀ m room, n ≤ room → f.read m room (Draft.ofJson v) t = .ok u)
    (rest : Restored n s fields u w) : Restored n s (f :: fields) t w

variable {s t w : σ} {fields rest : List (FieldCodec σ)}

/-- A field whose codec keeps its value. -/
theorem Restored.field {name : String} {absence : Absence} {get : σ → α} {set : α → σ → σ}
    (h : c.Keeps k (get s)) (hk : k ≤ n) (rest : Restored n s fields (set (get s) t) w) :
    Restored n s (field name absence c get set :: fields) t w :=
  .cons rfl h.exact (h.depth.trans hk)
    (fun m room hroom => by
      show (c.read m room (Draft.ofJson (c.encode (get s)))).map (fun a => set a t) = _
      rw [h.read m room (hk.trans hroom)]
      rfl)
    rest

theorem encodeFields_cons {f : FieldCodec σ} {v : Json} (h : f.encode s = some v) :
    encodeFields (f :: fields) s = (f.name, v) :: encodeFields fields s := by
  rw [encodeFields, List.filterMap_cons, h]
  rfl

theorem Restored.forall_mem (h : Restored n s fields t w) :
    ∀ e ∈ encodeFields fields s, Exact e.2 ∧ e.2.depth ≤ n := by
  induction h with
  | nil => exact fun _ he => nomatch he
  | cons encode exact depth _ _ ih =>
    rw [encodeFields_cons encode]
    exact List.forall_mem_cons.mpr ⟨⟨exact, depth⟩, ih⟩

/-- A field is found by its name, if no two have one name. -/
theorem find?_name {done : List (FieldCodec σ)} {f : FieldCodec σ}
    (h : ((done ++ f :: rest).map (·.name)).Nodup) :
    (done ++ f :: rest).find? (·.name == f.name) = some f := by
  rw [List.map_append, List.map_cons] at h
  have hbefore : done.find? (·.name == f.name) = none := by
    rw [List.find?_eq_none]
    intro g hg heq
    exact (List.nodup_append.mp h).2.2 _ (List.mem_map_of_mem hg) _ List.mem_cons_self
      (eq_of_beq heq)
  rw [List.find?_append, hbefore, Option.none_or, List.find?_cons_of_pos (by simp)]

/-- A field that is restored has not been seen before. -/
theorem contains_name_eq_false {done : List (FieldCodec σ)} {f : FieldCodec σ}
    (h : ((done ++ f :: rest).map (·.name)).Nodup) :
    (done.map (·.name)).reverse.contains f.name = false := by
  rw [List.map_append, List.map_cons] at h
  rw [List.contains_reverse, List.contains_eq_mem, decide_eq_false_iff_not]
  exact fun hmem => (List.nodup_append.mp h).2.2 _ hmem _ List.mem_cons_self rfl

/-- The member of a field that has not been seen is read by that field. -/
theorem readMembers_name {done after : List (FieldCodec σ)} {f : FieldCodec σ}
    (names : ((done ++ f :: after).map (·.name)).Nodup) (m : Manner) (room : Nat) (d : Draft)
    (members : List (Except Fault String × Draft)) (t : σ) :
    readMembers (done ++ f :: after) m room ((.ok f.name, d) :: members)
        (done.map (·.name)).reverse t =
      ((f.read m room d t).mapError (Fault.below f.name) >>= fun u =>
        readMembers (done ++ f :: after) m room members
          (f.name :: (done.map (·.name)).reverse) u) := by
  simp only [readMembers, bind, Except.bind, find?_name names, contains_name_eq_false names,
    Bool.false_eq_true, if_false]

/-- The members that fields write are read into the record that they restore, and then those
that follow. -/
theorem Restored.readMembers_append (h : Restored n s fields t w)
    (done after : List (FieldCodec σ))
    (names : ((done ++ (fields ++ after)).map (·.name)).Nodup) (m : Manner) {room : Nat}
    (hroom : n ≤ room) (members : List (Except Fault String × Draft)) :
    readMembers (done ++ (fields ++ after)) m room
        (Draft.ofMembers (encodeFields fields s) ++ members) (done.map (·.name)).reverse t =
      readMembers (done ++ (fields ++ after)) m room members
        ((done ++ fields).map (·.name)).reverse w := by
  induction h generalizing done with
  | nil =>
    rw [List.append_nil]
    rfl
  | @cons f fields v t u w encode _ _ read _ ih =>
    rw [List.cons_append] at names ⊢
    have hrest := ih (done ++ [f]) (by rwa [List.append_assoc, List.singleton_append])
    simp only [List.append_assoc, List.singleton_append, List.map_append, List.map_singleton,
      List.reverse_append, List.reverse_singleton] at hrest
    rw [encodeFields_cons encode, Draft.ofMembers, List.cons_append, readMembers_name names,
      read m room hroom, List.map_append, List.reverse_append, ← hrest]
    rfl

/-- The members that all fields write. -/
theorem Restored.readMembers_eq (h : Restored n s fields t w)
    (names : (fields.map (·.name)).Nodup) (m : Manner) {room : Nat} (hroom : n ≤ room) :
    readMembers fields m room (Draft.ofMembers (encodeFields fields s)) [] t =
      .ok ((fields.map (·.name)).reverse, w) := by
  have hall := h.readMembers_append [] [] (by rwa [List.append_nil]) m hroom []
  simp only [List.append_nil, List.nil_append] at hall
  exact hall

/-- Nothing is missing where every field has been seen. -/
theorem missing_eq_ok : missing fields (fields.map (·.name)).reverse = .ok () := by
  rw [missing, if_neg]
  simp only [List.any_eq_true, Bool.and_eq_true, Bool.not_eq_true', List.contains_eq_mem,
    List.mem_reverse, decide_eq_false_iff_not, not_exists, not_and, not_not]
  exact fun f hf _ => List.mem_map_of_mem hf

/-! ### Records -/

theorem ofMembers_eq_map (members : List (String × Json)) :
    Draft.ofMembers members = members.map fun e => (.ok e.1, Draft.ofJson e.2) := by
  induction members with
  | nil => rfl
  | cons e rest ih => exact congrArg _ ih

theorem ofMembers_append (ms ms' : List (String × Json)) :
    Draft.ofMembers (ms ++ ms') = Draft.ofMembers ms ++ Draft.ofMembers ms' := by
  rw [ofMembers_eq_map, ofMembers_eq_map, ofMembers_eq_map, List.map_append]

theorem keeps_record {blank : σ} (names : (fields.map (·.name)).Nodup)
    (h : Restored n s fields blank s) : (record blank fields).Keeps (n + 1) s where
  exact := .obj fun e he => (h.forall_mem e he).1
  depth := Nat.succ_le_succ (depthMembers_le_iff.mpr fun e he => (h.forall_mem e he).2)
  read m room hroom := by
    obtain ⟨room, rfl⟩ : ∃ r, room = r + 1 := ⟨room - 1, by omega⟩
    have hread := h.readMembers_eq names m (Nat.le_of_succ_le_succ hroom)
    show (readMembers fields m room (Draft.ofMembers (encodeFields fields s)) [] blank >>=
      fun x => _) = _
    rw [show readMembers fields m room _ [] blank = _ from hread]
    show (missing fields (fields.map (·.name)).reverse >>= fun _ => _) = _
    rw [missing_eq_ok]
    rfl

/-- A record cannot be read where one of its fields cannot, though those before it can. -/
theorem read_record_error {blank : σ} {i : Nat} {f : FieldCodec σ} {v : Json} {e : Fault}
    {m : Manner} {room : Nat} (names : (fields.map (·.name)).Nodup) (hf : fields[i]? = some f)
    (h : Restored n s (fields.take i) blank t) (hroom : n ≤ room) (encode : f.encode s = some v)
    (hread : (f.read m room (Draft.ofJson v) t).mapError (Fault.below f.name) = .error e) :
    (record blank fields).read m (room + 1) (Draft.ofJson ((record blank fields).encode s)) =
      .error e := by
  have hfields : fields.take i ++ f :: fields.drop (i + 1) = fields := by
    obtain ⟨hlt, rfl⟩ := List.getElem?_eq_some_iff.mp hf
    rw [← List.drop_eq_getElem_cons hlt, List.take_append_drop]
  generalize fields.take i = before, fields.drop (i + 1) = after at h hfields
  subst hfields
  have hencode : encodeFields (before ++ f :: after) s =
      encodeFields before s ++ (f.name, v) :: encodeFields after s := by
    rw [encodeFields, List.filterMap_append, List.filterMap_cons, encode]
    rfl
  have hbefore := h.readMembers_append [] (f :: after) names m hroom
    (Draft.ofMembers ((f.name, v) :: encodeFields after s))
  simp only [List.nil_append, List.map_nil, List.reverse_nil] at hbefore
  show (readMembers (before ++ f :: after) m room
    (Draft.ofMembers (encodeFields (before ++ f :: after) s)) [] blank >>= fun x => _) = _
  rw [hencode, ofMembers_append, hbefore, Draft.ofMembers, readMembers_name names, hread]
  rfl

/-! ### Records that share their object -/

/-- Members of no field are set aside. -/
theorem readOwn_others {others : List (String × Json)} {m : Manner} {room : Nat}
    (hfree : ∀ e ∈ others, fields.find? (·.name == e.1) = none)
    (hdepth : ∀ e ∈ others, e.2.depth ≤ room) (members : List (Except Fault String × Draft))
    (seen : List String) :
    readOwn fields m room (Draft.ofMembers others ++ members) seen t =
      (readOwn fields m room members seen t).map fun x => (Draft.ofMembers others ++ x.1, x.2) := by
  induction others with
  | nil =>
    rw [Draft.ofMembers, List.nil_append]
    cases readOwn fields m room members seen t <;> rfl
  | cons e rest ih =>
    obtain ⟨key, v⟩ := e
    obtain ⟨hkey, hfree⟩ := List.forall_mem_cons.mp hfree
    obtain ⟨hv, hdepth⟩ := List.forall_mem_cons.mp hdepth
    have hvalue : (Draft.ofJson v).toJson room = .ok v.normal := by
      rw [Draft.toJson_ofJson, Draft.within, if_pos hv]
    have hfind : fields.find? (·.name == key) = none := hkey
    simp only [Draft.ofMembers, List.cons_append, readOwn, bind, Except.bind, hfind, hvalue,
      ih hfree hdepth]
    cases m <;> cases readOwn fields _ room members seen t <;> rfl

/-- Where every member is a field's, none is set aside. -/
theorem readOwn_of_known {members : List (Except Fault String × Draft)}
    (h : ∀ e ∈ members, ∃ f ∈ fields, e.1 = .ok f.name) (m : Manner) (room : Nat)
    (seen : List String) (t : σ) :
    readOwn fields m room members seen t =
      (readMembers fields m room members seen t).map fun x => ([], x) := by
  induction members generalizing seen t with
  | nil => rfl
  | cons e rest ih =>
    obtain ⟨key, d⟩ := e
    obtain ⟨⟨g, hg, rfl⟩, hrest⟩ := List.forall_mem_cons.mp h
    have hfound : (fields.find? (·.name == g.name)).isSome :=
      List.find?_isSome.mpr ⟨g, hg, beq_self_eq_true g.name⟩
    obtain ⟨f, hf⟩ := Option.isSome_iff_exists.mp hfound
    simp only [readOwn, readMembers, bind, Except.bind, hf, ih hrest]
    split
    · rfl
    · cases (f.read m room d t).mapError (Fault.below g.name) <;> rfl

theorem exists_name_of_mem {e : Except Fault String × Draft}
    (he : e ∈ Draft.ofMembers (encodeFields fields s)) : ∃ f ∈ fields, e.1 = .ok f.name := by
  rw [ofMembers_eq_map] at he
  obtain ⟨⟨key, v⟩, hmem, rfl⟩ := List.mem_map.mp he
  obtain ⟨f, hf, hkey⟩ := List.mem_filterMap.mp hmem
  obtain ⟨w, -, heq⟩ := Option.map_eq_some_iff.mp hkey
  exact ⟨f, hf, congrArg (fun x => Except.ok x.1) heq.symm⟩

theorem keeps_sharing {blank : σ} {shared : Codec τ} {get : σ → τ} {set : τ → σ → σ}
    {members : List (String × Json)} (hshared : shared.Keeps (n + 1) (get s))
    (hmembers : shared.encode (get s) = .obj members)
    (hfree : ∀ e ∈ members, fields.find? (·.name == e.1) = Option.none)
    (names : (fields.map (·.name)).Nodup) (h : Restored n s fields blank w)
    (hset : set (get s) w = s) : (sharing blank shared get set fields).Keeps (n + 1) s := by
  have hexact := hshared.exact
  have hdepth := hshared.depth
  rw [hmembers] at hexact hdepth
  have hdepths : ∀ e ∈ members, e.2.depth ≤ n :=
    depthMembers_le_iff.mp (Nat.le_of_succ_le_succ hdepth)
  have hencode : (sharing blank shared get set fields).encode s =
      .obj (members ++ encodeFields fields s) := by
    show Json.obj ((shared.encode (get s)).members ++ _) = _
    rw [hmembers]
    rfl
  refine ⟨?_, ?_, fun m room hroom => ?_⟩
  · rw [hencode]
    cases hexact with
    | obj hexact =>
      refine .obj fun e he => ?_
      rcases List.mem_append.mp he with he | he
      · exact hexact e he
      · exact (h.forall_mem e he).1
  · rw [hencode]
    refine Nat.succ_le_succ (depthMembers_le_iff.mpr fun e he => ?_)
    rcases List.mem_append.mp he with he | he
    · exact hdepths e he
    · exact (h.forall_mem e he).2
  · obtain ⟨room, rfl⟩ : ∃ r, room = r + 1 := ⟨room - 1, by omega⟩
    have hn := Nat.le_of_succ_le_succ hroom
    have hown : readOwn fields m room (Draft.ofMembers (encodeFields fields s)) [] blank =
        .ok ([], (fields.map (·.name)).reverse, w) := by
      rw [readOwn_of_known fun e he => exists_name_of_mem he, h.readMembers_eq names m hn]
      rfl
    have hothers := readOwn_others (t := blank) (m := m) hfree (fun e he => (hdepths e he).trans hn)
      (Draft.ofMembers (encodeFields fields s)) []
    have hread := hshared.read .setAside (room + 1) hroom
    rw [hmembers] at hread
    rw [hown, ← ofMembers_append] at hothers
    rw [hencode]
    show (readOwn fields m room (Draft.ofMembers (members ++ encodeFields fields s)) [] blank >>=
      fun x => _) = _
    rw [hothers]
    show (missing fields (fields.map (·.name)).reverse >>= fun _ => _) = _
    rw [missing_eq_ok]
    show ((shared.read .setAside (room + 1) (.obj (Draft.ofMembers members ++ []) .closed)).mapError
      Fault.withoutPath >>= fun t => _) = _
    rw [List.append_nil, show shared.read .setAside (room + 1) (.obj _ .closed) = _ from hread]
    show Except.ok (set (get s) w) = _
    rw [hset]

end Gatehouse.Json.Codec
