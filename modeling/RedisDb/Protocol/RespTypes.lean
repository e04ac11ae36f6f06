import RedisDb.Cpp

/-!
# RESP values

`RespValue` with its typed accessors. `RespValue::type` and the alternative held by
`RespValue::data` are set together by the factory functions, so one inductive type models the pair.
-/

namespace RedisDb

/-- A RESP value, one constructor for each factory of `RespValue`. -/
inductive RespValue where
  | simpleString (s : Bytes)
  | error (msg : Bytes)
  | integer (n : Int64)
  | bulkString (s : Bytes)
  | array (elements : List RespValue)
  | null

namespace RespValue

/-- Induction over the nesting: an array has the property when all its elements have it. -/
@[elab_as_elim, induction_eliminator]
theorem induct {motive : RespValue → Prop}
    (simpleString : ∀ s, motive (.simpleString s)) (error : ∀ msg, motive (.error msg))
    (integer : ∀ n, motive (.integer n)) (bulkString : ∀ s, motive (.bulkString s))
    (array : ∀ elements, (∀ v ∈ elements, motive v) → motive (.array elements))
    (null : motive .null) (v : RespValue) : motive v :=
  @RespValue.rec motive (fun elements => ∀ v ∈ elements, motive v)
    simpleString error integer bulkString array null
    (fun _ h => absurd h List.not_mem_nil)
    (fun _ _ hv hvs w hw => (List.mem_cons.mp hw).elim (fun h => h ▸ hv) (hvs w)) v

/-- `asString`: `std::get<std::string>`, which every alternative without a string refuses. -/
def asString : RespValue → Except Exn Bytes
  | simpleString s => .ok s
  | error msg => .ok msg
  | bulkString s => .ok s
  | _ => .error .badVariantAccess

/-- The value holds a string. -/
def IsString (v : RespValue) : Prop := ∃ s, v.asString = .ok s

instance (v : RespValue) : Decidable v.IsString :=
  match h : v.asString with
  | .ok s => isTrue ⟨s, h⟩
  | .error _ => isFalse fun ⟨s, hs⟩ => by rw [h] at hs; exact absurd hs (by simp)

theorem IsString.of_asString {v : RespValue} {s : Bytes} (h : v.asString = .ok s) : v.IsString := ⟨s, h⟩

@[simp] theorem isString_simpleString (s : Bytes) : (simpleString s).IsString := ⟨s, rfl⟩
@[simp] theorem isString_error (s : Bytes) : (error s).IsString := ⟨s, rfl⟩
@[simp] theorem isString_bulkString (s : Bytes) : (bulkString s).IsString := ⟨s, rfl⟩

/-- Values read as strings one after another. -/
theorem mapM_cons_eq_ok {v : RespValue} {vs : List RespValue} {ss : List Bytes}
    (h : (v :: vs).mapM asString = .ok ss) :
    ∃ s ss', v.asString = .ok s ∧ vs.mapM asString = .ok ss' ∧ ss = s :: ss' := by
  rw [List.mapM_cons] at h
  cases hv : v.asString with
  | error e => rw [hv] at h; cases h
  | ok s =>
    cases hvs : vs.mapM asString with
    | error e => rw [hv, hvs] at h; cases h
    | ok ss' =>
      rw [hv, hvs] at h
      exact ⟨s, ss', rfl, rfl, (Except.ok.inj h).symm⟩

/-- The same, by the strings. -/
theorem mapM_eq_ok_nil {vs : List RespValue} (h : vs.mapM asString = .ok []) : vs = [] := by
  cases vs with
  | nil => rfl
  | cons v vs =>
    obtain ⟨_, _, -, -, heq⟩ := mapM_cons_eq_ok h
    cases heq

theorem mapM_eq_ok_cons {vs : List RespValue} {s : Bytes} {ss : List Bytes}
    (h : vs.mapM asString = .ok (s :: ss)) :
    ∃ v vs', vs = v :: vs' ∧ v.asString = .ok s ∧ vs'.mapM asString = .ok ss := by
  cases vs with
  | nil => cases h
  | cons v vs =>
    obtain ⟨_, _, hv, hvs, heq⟩ := mapM_cons_eq_ok h
    obtain ⟨rfl, rfl⟩ := List.cons.inj heq
    exact ⟨v, vs, rfl, hv, hvs⟩

theorem length_of_mapM {vs : List RespValue} : ∀ {ss : List Bytes}, vs.mapM asString = .ok ss →
    vs.length = ss.length := by
  induction vs with
  | nil =>
    intro ss h
    obtain rfl := Except.ok.inj h
    rfl
  | cons v vs ih =>
    intro ss h
    obtain ⟨_, _, -, hvs, rfl⟩ := mapM_cons_eq_ok h
    rw [List.length_cons, List.length_cons, ih hvs]

/-- They are all strings. -/
theorem isString_of_mapM {vs : List RespValue} : ∀ {ss : List Bytes},
    vs.mapM asString = .ok ss → ∀ v ∈ vs, v.IsString := by
  induction vs with
  | nil => intro ss _ v hv; cases hv
  | cons w vs ih =>
    intro ss h v hv
    obtain ⟨s, ss', hw, hvs, -⟩ := mapM_cons_eq_ok h
    rcases List.mem_cons.mp hv with rfl | hmem
    · exact ⟨s, hw⟩
    · exact ih hvs v hmem

/-- Strings are read as strings. -/
theorem exists_mapM {vs : List RespValue} (h : ∀ v ∈ vs, v.IsString) :
    ∃ ss, vs.mapM asString = .ok ss := by
  induction vs with
  | nil => exact ⟨[], rfl⟩
  | cons v vs ih =>
    obtain ⟨s, hs⟩ := h v List.mem_cons_self
    obtain ⟨ss, hss⟩ := ih fun w hw => h w (List.mem_cons_of_mem _ hw)
    refine ⟨s :: ss, ?_⟩
    rw [List.mapM_cons, hs, hss]
    rfl

/-- Bulk strings are read as what they are. -/
theorem mapM_bulkString (ss : List Bytes) : (ss.map bulkString).mapM asString = .ok ss := by
  induction ss with
  | nil => rfl
  | cons s ss ih =>
    rw [List.map_cons, List.mapM_cons, ih]
    rfl

end RespValue

end RedisDb
