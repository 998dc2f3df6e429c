import Elb.Common.Protobuf
import Mathlib.Data.List.Nodup
import Mathlib.Data.List.TakeWhile

/-!
# Parsing protobuf messages

How a generated parser reads a message: a loop over the fields, which come in any order, with a
short way for the field that usually comes next. The reading functions of the runtime are a
parameter. `Runtime.Documented` is what their documentation says of input that is well formed, and
`Runtime.reference` is a runtime that does so.

Whatever short ways are taken, fields that are written one after another are read one after another
(`parseInto_items`).
-/

namespace Protobuf

/-! ## The runtime -/

/-- The reading functions of the runtime, on the bytes that are left up to the limit. -/
structure Runtime where
  readTag : List UInt8 → ℕ × List UInt8
  expectTag : ℕ → List UInt8 → Option (List UInt8)
  expectAtEnd : List UInt8 → Bool
  readInt32 : List UInt8 → Option (Int32 × List UInt8)
  readUInt32 : List UInt8 → Option (UInt32 × List UInt8)
  readInt64 : List UInt8 → Option (ℤ × List UInt8)
  readBool : List UInt8 → Option (Bool × List UInt8)
  readSize : List UInt8 → Option (ℕ × List UInt8)
  skipField : ℕ → List UInt8 → Option (List UInt8)

/-- The value of a field as its tag says. Groups (wire types 3 and 4) are left out: `elb.proto` has
none, and no field of an unknown number is taken to be one. -/
inductive Value (tag : ℕ) : List UInt8 → Prop
  | varint {n : ℕ} (h : tag % 8 = 0) (hn : n < 2 ^ 64) : Value tag (varint n)
  | fixed64 {bytes : List UInt8} (h : tag % 8 = 1) (hlen : bytes.length = 8) : Value tag bytes
  | delimited {bytes : List UInt8} (h : tag % 8 = 2) (hlen : bytes.length < 2 ^ 31) :
      Value tag (Protobuf.varint bytes.length ++ bytes)
  | fixed32 {bytes : List UInt8} (h : tag % 8 = 5) (hlen : bytes.length = 4) : Value tag bytes

/-- What is said of the reading functions. A tag or the end need not be found where it is expected.
-/
structure Runtime.Documented (rt : Runtime) : Prop where
  readTag_nil : rt.readTag [] = (0, [])
  readTag_varint : ∀ tag rest, 0 < tag → tag < 2 ^ 32 →
    rt.readTag (varint tag ++ rest) = (tag, rest)
  readTag_of_expectTag : ∀ tag bytes rest, rt.expectTag tag bytes = some rest →
    rt.readTag bytes = (tag, rest)
  nil_of_expectAtEnd : ∀ bytes, rt.expectAtEnd bytes = true → bytes = []
  readInt32_varint : ∀ x rest, rt.readInt32 (varint (int32 x) ++ rest) = some (x, rest)
  readUInt32_varint : ∀ x rest, rt.readUInt32 (varint x.toNat ++ rest) = some (x, rest)
  readInt64_varint : ∀ x rest, -2 ^ 63 ≤ x → x < 2 ^ 63 →
    rt.readInt64 (varint (int64 x) ++ rest) = some (x, rest)
  readBool_varint : ∀ x rest, rt.readBool (varint x.toNat ++ rest) = some (x, rest)
  readSize_varint : ∀ n rest, n < 2 ^ 31 → rt.readSize (varint n ++ rest) = some (n, rest)
  skipField_value : ∀ tag bytes rest, Value tag bytes → rt.skipField tag (bytes ++ rest) = some rest

/-! ## The generated parser -/

variable {σ τ : Type}

/-- A field of a message: its tag, if it is repeated, and how its value is read into the message. -/
structure Field (σ : Type) where
  tag : ℕ
  repeated : Bool
  read : Runtime → σ → List UInt8 → Option (σ × List UInt8)

/-- `MergePartialFromCodedStream` of a message with these fields, in the order of their numbers, and
what its callers then check, that the message ended where its bytes do. With no label it is at the
head of the loop, otherwise at the label of a field, with the fields from there on. -/
def merge (rt : Runtime) (fields : List (Field σ)) : ℕ → List (Field σ) → σ → List UInt8 → Option σ
  | 0, _, _, _ => none
  | fuel + 1, [], m, bytes =>
    let (tag, rest) := rt.readTag bytes
    match fields.dropWhile (·.tag ≠ tag) with
    | f :: label => merge rt fields fuel (f :: label) m rest
    | [] =>
      -- `handle_unusual`; at a tag that ends a group the message has not ended
      if tag = 0 then if bytes = [] then some m else none
      else if tag % 8 = 4 then none
      else
        match rt.skipField tag rest with
        | none => none
        | some rest => merge rt fields fuel [] m rest
  | fuel + 1, f :: label, m, bytes =>
    match f.read rt m bytes with
    | none => none
    | some (m, rest) =>
      match if f.repeated then rt.expectTag f.tag rest else none with
      | some rest => merge rt fields fuel (f :: label) m rest
      | none =>
        match label with
        | [] => if rt.expectAtEnd rest then some m else merge rt fields fuel [] m rest
        | g :: label =>
          match rt.expectTag g.tag rest with
          | some rest => merge rt fields fuel (g :: label) m rest
          | none => merge rt fields fuel [] m rest

/-- All bytes are parsed into the message. Each turn of the loop reads a byte. -/
def parseInto (rt : Runtime) (fields : List (Field σ)) (m : σ) (bytes : List UInt8) : Option σ :=
  merge rt fields (2 * bytes.length + 1) [] m bytes

namespace Field

/-- A field whose value the runtime reads by itself. -/
def scalar {α : Type} (read : Runtime → List UInt8 → Option (α × List UInt8)) (tag : ℕ)
    (set : α → σ → σ) : Field σ :=
  ⟨tag, false, fun rt m bytes => (read rt bytes).map fun r => (set r.1 m, r.2)⟩

/-- `ReadMessageNoVirtual`: the message behind its length, parsed into what `get` gives. -/
def message (fields : List (Field τ)) (repeated : Bool) (tag : ℕ) (get : σ → τ) (set : τ → σ → σ) :
    Field σ :=
  ⟨tag, repeated, fun rt m bytes => do
    let (n, rest) ← rt.readSize bytes
    let sub ← parseInto rt fields (get m) (rest.take n)
    return (set sub m, rest.drop n)⟩

end Field

/-! ## Written fields -/

/-- A field as it is written, and what reading it does to the message. -/
structure Item (σ : Type) where
  tag : ℕ
  value : List UInt8
  effect : σ → σ

namespace Item

/-- The tag and the value. -/
def bytes (i : Item σ) : List UInt8 := varint i.tag ++ i.value

/-- The message after the fields have been read. -/
def apply (items : List (Item σ)) (m : σ) : σ := items.foldl (fun m i => i.effect m) m

/-- The field is read by one of the fields of the message, or skipped. -/
inductive Read (rt : Runtime) (fields : List (Field σ)) (i : Item σ) : Prop
  | known {f : Field σ} (hf : f ∈ fields) (htag : i.tag = f.tag)
      (hread : ∀ m rest, f.read rt m (i.value ++ rest) = some (i.effect m, rest))
  | skipped (hpos : 0 < i.tag) (hlt : i.tag < 2 ^ 32) (hnew : ∀ f ∈ fields, f.tag ≠ i.tag)
      (hvalue : Value i.tag i.value) (heffect : ∀ m, i.effect m = m)

end Item

/-- The tags of a message tell its fields apart. -/
structure WellTagged (fields : List (Field σ)) : Prop where
  nodup : (fields.map Field.tag).Nodup
  range : ∀ f ∈ fields, 0 < f.tag ∧ f.tag < 2 ^ 32

/-- A field that is skipped does not end a group. -/
theorem Value.ne_end {tag : ℕ} {bytes : List UInt8} (h : Value tag bytes) : tag % 8 ≠ 4 := by
  cases h <;> omega

variable {rt : Runtime} {fields : List (Field σ)}

/-- A tag belongs to one field only. -/
theorem WellTagged.eq_of_tag (h : WellTagged fields) {f g : Field σ} (hf : f ∈ fields)
    (hg : g ∈ fields) (htag : f.tag = g.tag) : f = g :=
  List.inj_on_of_nodup_map h.nodup hf hg htag

/-- The `switch` finds the field of a tag. -/
theorem WellTagged.dropWhile_tag (h : WellTagged fields) {f : Field σ} (hf : f ∈ fields) :
    ∃ label, fields.dropWhile (·.tag ≠ f.tag) = f :: label ∧ label ⊆ fields := by
  obtain ⟨before, label, rfl⟩ := List.append_of_mem hf
  refine ⟨label, ?_, ?_⟩
  · have hbefore : ∀ g ∈ before, decide (g.tag ≠ f.tag) = true := by
      intro g hg
      have hdisj := List.disjoint_of_nodup_append (List.map_append ▸ h.nodup)
      exact decide_eq_true fun heq => hdisj (List.mem_map_of_mem hg) (by simp [heq])
    rw [List.dropWhile_append_of_pos hbefore, List.dropWhile_cons_of_neg (by simp)]
  · exact fun g hg => List.mem_append_right _ (List.mem_cons_of_mem _ hg)

/-- The `switch` falls through to `handle_unusual` for a tag that no field has. -/
theorem dropWhile_tag_eq_nil {tag : ℕ} (hnew : ∀ f ∈ fields, f.tag ≠ tag) :
    fields.dropWhile (·.tag ≠ tag) = [] :=
  List.dropWhile_eq_nil_iff.mpr fun f hf => decide_eq_true (hnew f hf)

namespace Item

/-- A field takes a byte at least. -/
theorem length_le_bytes (items : List (Item σ)) : items.length ≤ (items.flatMap bytes).length := by
  induction items with
  | nil => exact le_refl _
  | cons i items ih =>
    have hpos := width_pos i.tag
    rw [List.flatMap_cons, List.length_append, bytes, List.length_append, length_varint,
      List.length_cons]
    omega

/-- A tag that is read is a number of 32 bits and not zero. -/
theorem Read.range (h : WellTagged fields) {i : Item σ} (hi : i.Read rt fields) :
    0 < i.tag ∧ i.tag < 2 ^ 32 := by
  cases hi with
  | known hf htag => exact htag ▸ h.range _ hf
  | skipped hpos hlt => exact ⟨hpos, hlt⟩

/-- It is the field with its tag that reads it. -/
theorem Read.of_tag (h : WellTagged fields) {i : Item σ} (hi : i.Read rt fields) {f : Field σ}
    (hf : f ∈ fields) (htag : i.tag = f.tag) (m : σ) (rest : List UInt8) :
    f.read rt m (i.value ++ rest) = some (i.effect m, rest) := by
  cases hi with
  | known hg htag' hread => exact h.eq_of_tag hg hf (htag'.symm.trans htag) ▸ hread m rest
  | skipped _ _ hnew => exact absurd htag.symm (hnew f hf)

/-- A tag that is found where it is expected is the tag of the next field. -/
theorem eq_cons_of_expectTag (hrt : rt.Documented) (h : WellTagged fields) {items : List (Item σ)}
    (hitems : ∀ i ∈ items, i.Read rt fields) {f : Field σ} (hf : f ∈ fields) {rest : List UInt8}
    (hexpect : rt.expectTag f.tag (items.flatMap bytes) = some rest) :
    ∃ i items', items = i :: items' ∧ i.tag = f.tag ∧ rest = i.value ++ items'.flatMap bytes := by
  have hread := hrt.readTag_of_expectTag _ _ _ hexpect
  cases items with
  | nil =>
    rw [List.flatMap_nil, hrt.readTag_nil] at hread
    have hpos := (h.range f hf).1
    have htag := congrArg Prod.fst hread
    dsimp only at htag
    omega
  | cons i items =>
    obtain ⟨hpos, hlt⟩ := (hitems i List.mem_cons_self).range h
    rw [List.flatMap_cons, bytes, List.append_assoc, hrt.readTag_varint _ _ hpos hlt] at hread
    obtain ⟨htag, hrest⟩ := Prod.mk.inj hread
    exact ⟨i, items, rfl, htag, hrest.symm⟩

end Item

/-- The head of the loop reads the fields. -/
def HeadReads (rt : Runtime) (fields : List (Field σ)) (items : List (Item σ)) : Prop :=
  ∀ fuel m, 2 * items.length < fuel →
    merge rt fields fuel [] m (items.flatMap Item.bytes) = some (Item.apply items m)

/-- So does the label of a field that has the value of its own field before it. -/
def LabelReads (rt : Runtime) (fields : List (Field σ)) (items : List (Item σ)) : Prop :=
  ∀ (i : Item σ) (f : Field σ) label fuel m, f ∈ fields → label ⊆ fields →
    (∀ m rest, f.read rt m (i.value ++ rest) = some (i.effect m, rest)) →
    2 * items.length + 1 < fuel →
      merge rt fields fuel (f :: label) m (i.value ++ items.flatMap Item.bytes) =
        some (Item.apply (i :: items) m)

/-- At the end of the bytes the message is returned. -/
theorem headReads_nil (hrt : rt.Documented) (h : WellTagged fields) : HeadReads rt fields [] := by
  intro fuel m hfuel
  obtain _ | fuel := fuel
  · omega
  · have hnil : fields.dropWhile (·.tag ≠ 0) = [] :=
      dropWhile_tag_eq_nil fun f hf => (h.range f hf).1.ne'
    simp only [merge, List.flatMap_nil, hrt.readTag_nil, hnil]
    rfl

/-- At the head of the loop one tag is read, and its field is read or skipped. -/
theorem headReads_cons (hrt : rt.Documented) (h : WellTagged fields) {i : Item σ}
    {items : List (Item σ)} (hi : i.Read rt fields) (hhead : HeadReads rt fields items)
    (hlabel : LabelReads rt fields items) : HeadReads rt fields (i :: items) := by
  intro fuel m hfuel
  rw [List.length_cons] at hfuel
  obtain _ | fuel := fuel
  · omega
  · obtain ⟨hpos, hlt⟩ := hi.range h
    have htag := hrt.readTag_varint i.tag (i.value ++ items.flatMap Item.bytes) hpos hlt
    rw [List.flatMap_cons, Item.bytes, List.append_assoc, merge, htag]
    -- a field of the message leads to its label, an unknown one back to the head
    cases hi with
    | known hf hitag hread =>
      obtain ⟨label, hdrop, hsub⟩ := h.dropWhile_tag hf
      simp only [hitag, hdrop]
      exact hlabel i _ label fuel m hf hsub hread (by omega)
    | skipped _ _ hnew hvalue heffect =>
      simp only [dropWhile_tag_eq_nil hnew, if_neg hpos.ne', if_neg hvalue.ne_end,
        hrt.skipField_value _ _ _ hvalue]
      rw [hhead fuel m (by omega), Item.apply, Item.apply, List.foldl_cons, heffect]

/-- After a field, whether or not the next tag or the end is found where it is expected. -/
theorem labelReads_of (hrt : rt.Documented) (h : WellTagged fields) {items : List (Item σ)}
    (hitems : ∀ i ∈ items, i.Read rt fields) (hhead : HeadReads rt fields items)
    (htail : ∀ i items', items = i :: items' → LabelReads rt fields items') :
    LabelReads rt fields items := by
  intro i f label fuel m hf hsub hread hfuel
  obtain _ | fuel := fuel
  · omega
  -- a tag that was found leads to the label of the next field
  have hfound : ∀ (g : Field σ) label rest, g ∈ fields → label ⊆ fields →
      rt.expectTag g.tag (items.flatMap Item.bytes) = some rest →
        merge rt fields fuel (g :: label) (i.effect m) rest = some (Item.apply (i :: items) m) := by
    intro g label rest hg hsub hexpect
    obtain ⟨j, items', rfl, htag, rfl⟩ := Item.eq_cons_of_expectTag hrt h hitems hg hexpect
    have hj := (hitems j List.mem_cons_self).of_tag h hg htag
    rw [List.length_cons] at hfuel
    exact htail j items' rfl j g label fuel (i.effect m) hg hsub hj (by omega)
  have hturn : merge rt fields fuel [] (i.effect m) (items.flatMap Item.bytes) =
      some (Item.apply (i :: items) m) := hhead fuel (i.effect m) (by omega)
  rw [merge, hread]
  dsimp only
  split
  · next rest hexpect =>
    split at hexpect
    · exact hfound f label rest hf hsub hexpect
    · cases hexpect
  · split
    · split
      · next hend =>
        have hnil := hrt.nil_of_expectAtEnd _ hend
        have hlen := Item.length_le_bytes items
        rw [hnil, List.length_nil, Nat.le_zero, List.length_eq_zero_iff] at hlen
        rw [hlen]
        rfl
      · exact hturn
    · next g label =>
      obtain ⟨hg, hsub⟩ := List.cons_subset.mp hsub
      split
      · next rest hexpect => exact hfound g label rest hg hsub hexpect
      · exact hturn

/-- However the parser came to the fields that are left, it reads them. -/
theorem head_label_reads (hrt : rt.Documented) (h : WellTagged fields) {items : List (Item σ)}
    (hitems : ∀ i ∈ items, i.Read rt fields) :
    HeadReads rt fields items ∧ LabelReads rt fields items := by
  -- on the fields that are left; the label needs the head for the same fields, and the head the
  -- label for one field less
  induction items with
  | nil =>
    have hhead := headReads_nil hrt h
    exact ⟨hhead, labelReads_of hrt h hitems hhead (by simp)⟩
  | cons i items ih =>
    obtain ⟨hi, htail⟩ := List.forall_mem_cons.mp hitems
    obtain ⟨hhead, hlabel⟩ := ih htail
    have hcons := headReads_cons hrt h hi hhead hlabel
    refine ⟨hcons, labelReads_of hrt h hitems hcons ?_⟩
    rintro j items' heq
    obtain ⟨-, rfl⟩ := List.cons.inj heq
    exact hlabel

/-- Fields that are written one after another are read one after another. -/
theorem parseInto_items (hrt : rt.Documented) (h : WellTagged fields) {items : List (Item σ)}
    (hitems : ∀ i ∈ items, i.Read rt fields) (m : σ) :
    parseInto rt fields m (items.flatMap Item.bytes) = some (Item.apply items m) := by
  have hlen := Item.length_le_bytes items
  exact (head_label_reads hrt h hitems).1 _ m (by omega)

/-! ## Messages -/

/-- A field of a message `μ`, which a parser with the state `σ` reads: what is written for it, and
how it is read. -/
structure Column (μ σ : Type) where
  field : Field σ
  write : μ → List (Item σ)

variable {μ ν : Type}

namespace Column

/-- A scalar field with the values that are set. -/
def scalar {α : Type} (read : Runtime → List UInt8 → Option (α × List UInt8)) (number : α → ℕ)
    (tag : ℕ) (values : μ → List α) (set : α → σ → σ) : Column μ σ :=
  ⟨.scalar read tag set, fun x => (values x).map fun v => ⟨tag, varint (number v), set v⟩⟩

/-- A field of type `int32`. -/
def int32 (tag : ℕ) (values : μ → List Int32) (set : Int32 → σ → σ) : Column μ σ :=
  scalar Runtime.readInt32 Protobuf.int32 tag values set

/-- A field of type `uint32`. -/
def uint32 (tag : ℕ) (values : μ → List UInt32) (set : UInt32 → σ → σ) : Column μ σ :=
  scalar Runtime.readUInt32 UInt32.toNat tag values set

/-- A field of type `int64`. -/
def int64 (tag : ℕ) (values : μ → List ℤ) (set : ℤ → σ → σ) : Column μ σ :=
  scalar Runtime.readInt64 Protobuf.int64 tag values set

/-- A field of type `bool`. -/
def bool (tag : ℕ) (values : μ → List Bool) (set : Bool → σ → σ) : Column μ σ :=
  scalar Runtime.readBool Bool.toNat tag values set

end Column

/-- What is written for a message, field by field. -/
def items (columns : List (Column μ σ)) (x : μ) : List (Item σ) := columns.flatMap (·.write x)

/-- `SerializeWithCachedSizes`. -/
def serialize (columns : List (Column μ σ)) (x : μ) : List UInt8 :=
  (items columns x).flatMap Item.bytes

/-- A field with the messages that are set, a single one or repeated. -/
def Column.message (columns : List (Column ν τ)) (repeated : Bool) (tag : ℕ) (values : μ → List ν)
    (get : σ → τ) (set : τ → σ → σ) : Column μ σ :=
  ⟨.message (columns.map Column.field) repeated tag get set, fun x => (values x).map fun v =>
    ⟨tag, varint (serialize columns v).length ++ serialize columns v,
      fun m => set (Item.apply (items columns v) (get m)) m⟩⟩

/-- A part of a state that can be read and replaced. -/
structure Lens (σ τ : Type) where
  get : σ → τ
  put : τ → σ → σ
  get_put : ∀ t m, get (put t m) = t
  put_put : ∀ t t' m, put t (put t' m) = put t m
  put_get : ∀ m, put (get m) m = m

/-- A repeated field, whose messages are collected: `add_` puts one behind the others. -/
def Column.repeated (columns : List (Column ν τ)) (tag : ℕ) (values : μ → List ν) (empty : τ)
    (lens : Lens σ (List τ)) : Column μ σ :=
  .message columns true tag values (fun _ => empty) fun t m => lens.put (lens.get m ++ [t]) m

/-- What is written for the field is read by it. -/
def Column.Reads (rt : Runtime) (c : Column μ σ) (x : μ) : Prop :=
  ∀ i ∈ c.write x, i.tag = c.field.tag ∧
    ∀ m rest, c.field.read rt m (i.value ++ rest) = some (i.effect m, rest)

namespace Column

/-- A number is read back if the runtime reads back what was written for it. -/
theorem Reads.scalar {α : Type} {read : Runtime → List UInt8 → Option (α × List UInt8)}
    {number : α → ℕ} {tag : ℕ} {values : μ → List α} {set : α → σ → σ} {x : μ}
    (hread : ∀ v ∈ values x, ∀ rest, read rt (varint (number v) ++ rest) = some (v, rest)) :
    (scalar read number tag values set).Reads rt x := by
  intro i hi
  obtain ⟨v, hv, rfl⟩ := List.mem_map.mp hi
  refine ⟨rfl, fun m rest => ?_⟩
  unfold Column.scalar Field.scalar
  dsimp only
  rw [hread v hv]
  rfl

/-- Every `int32` is read back. -/
theorem Reads.int32 (hrt : rt.Documented) (tag : ℕ) (values : μ → List Int32)
    (set : Int32 → σ → σ) (x : μ) : (int32 tag values set).Reads rt x :=
  Reads.scalar fun v _ => hrt.readInt32_varint v

/-- Every `uint32` is read back. -/
theorem Reads.uint32 (hrt : rt.Documented) (tag : ℕ) (values : μ → List UInt32)
    (set : UInt32 → σ → σ) (x : μ) : (uint32 tag values set).Reads rt x :=
  Reads.scalar fun v _ => hrt.readUInt32_varint v

/-- Every number in the range of `int64` is read back. -/
theorem Reads.int64 (hrt : rt.Documented) (tag : ℕ) {values : μ → List ℤ} (set : ℤ → σ → σ)
    {x : μ} (hrange : ∀ v ∈ values x, -2 ^ 63 ≤ v ∧ v < 2 ^ 63) :
    (int64 tag values set).Reads rt x :=
  Reads.scalar fun v hv rest => hrt.readInt64_varint v rest (hrange v hv).1 (hrange v hv).2

/-- Every `bool` is read back. -/
theorem Reads.bool (hrt : rt.Documented) (tag : ℕ) (values : μ → List Bool)
    (set : Bool → σ → σ) (x : μ) : (bool tag values set).Reads rt x :=
  Reads.scalar fun v _ => hrt.readBool_varint v

end Column

/-- If each field reads what is written for it, all that is written for the message is read. -/
theorem read_of_reads {columns : List (Column μ σ)} {x : μ} (h : ∀ c ∈ columns, c.Reads rt x) :
    ∀ i ∈ items columns x, i.Read rt (columns.map Column.field) := by
  intro i hi
  obtain ⟨c, hc, hi⟩ := List.mem_flatMap.mp hi
  obtain ⟨htag, hread⟩ := h c hc i hi
  exact .known (List.mem_map_of_mem hc) htag hread

/-- What is written for a message is read. -/
theorem parseInto_serialize (hrt : rt.Documented) {columns : List (Column μ σ)}
    (hcols : WellTagged (columns.map Column.field)) {x : μ} (h : ∀ c ∈ columns, c.Reads rt x)
    (m : σ) : parseInto rt (columns.map Column.field) m (serialize columns x) =
      some (Item.apply (items columns x) m) :=
  parseInto_items hrt hcols (read_of_reads h) m

/-- A message within the message is read back, if it is not longer than an `int`. -/
theorem Column.Reads.message (hrt : rt.Documented) {columns : List (Column ν τ)}
    (hcols : WellTagged (columns.map Column.field)) (repeated : Bool) (tag : ℕ)
    {values : μ → List ν} (get : σ → τ) (set : τ → σ → σ) {x : μ}
    (h : ∀ v ∈ values x, (∀ c ∈ columns, c.Reads rt v) ∧ (serialize columns v).length < 2 ^ 31) :
    (message columns repeated tag values get set).Reads rt x := by
  intro i hi
  obtain ⟨v, hv, rfl⟩ := List.mem_map.mp hi
  obtain ⟨hreads, hlen⟩ := h v hv
  refine ⟨rfl, fun m rest => ?_⟩
  unfold Column.message Field.message
  dsimp only
  rw [List.append_assoc, hrt.readSize_varint _ _ hlen, Option.bind_eq_bind, Option.bind_some,
    List.take_left, List.drop_left, parseInto_serialize hrt hcols hreads]
  rfl

/-- Without fields nothing is written. -/
theorem serialize_nil (x : μ) : serialize ([] : List (Column μ σ)) x = [] := rfl

/-- The fields are written in their order. -/
theorem serialize_cons (c : Column μ σ) (columns : List (Column μ σ)) (x : μ) :
    serialize (c :: columns) x = (c.write x).flatMap Item.bytes ++ serialize columns x := by
  rw [serialize, items, List.flatMap_cons, List.flatMap_append]
  rfl

/-- For each value of a field of numbers, its tag and the number are written. -/
theorem Column.bytes_scalar {α : Type} (read : Runtime → List UInt8 → Option (α × List UInt8))
    (number : α → ℕ) (tag : ℕ) (values : μ → List α) (set : α → σ → σ) (x : μ) :
    ((scalar read number tag values set).write x).flatMap Item.bytes =
      (values x).flatMap fun v => varint tag ++ varint (number v) :=
  List.flatMap_map _ _ (values x)

/-- For each message of a field, its tag, its length and its own fields are written. -/
theorem Column.bytes_message (columns : List (Column ν τ)) (repeated : Bool) (tag : ℕ)
    (values : μ → List ν) (get : σ → τ) (set : τ → σ → σ) (x : μ) :
    ((message columns repeated tag values get set).write x).flatMap Item.bytes =
      (values x).flatMap fun v =>
        varint tag ++ (varint (serialize columns v).length ++ serialize columns v) :=
  List.flatMap_map _ _ (values x)

/-- The first field is applied before the others. -/
theorem apply_items_cons (c : Column μ σ) (columns : List (Column μ σ)) (x : μ) (m : σ) :
    Item.apply (items (c :: columns) x) m =
      Item.apply (items columns x) (Item.apply (c.write x) m) := by
  rw [items, List.flatMap_cons, Item.apply, List.foldl_append]
  rfl

/-- A repeated field collects all messages that are written for it. -/
theorem Column.apply_repeated (columns : List (Column ν τ)) (tag : ℕ) (values : μ → List ν)
    (empty : τ) (lens : Lens σ (List τ)) (x : μ) (m : σ) :
    Item.apply ((repeated columns tag values empty lens).write x) m =
      lens.put (lens.get m ++ (values x).map fun v => Item.apply (items columns v) empty) m := by
  unfold repeated Column.message
  dsimp only
  rw [Item.apply, List.foldl_map]
  generalize values x = vs
  induction vs generalizing m with
  | nil => rw [List.foldl_nil, List.map_nil, List.append_nil, lens.put_get]
  | cons v vs ih =>
    rw [List.foldl_cons, ih, lens.get_put, lens.put_put, List.map_cons, List.append_assoc]
    rfl

/-! ## Unknown fields -/

/-- The fields that are written, each as its bytes, with others between them whose tags are not
known. -/
inductive Interleaved (known : List ℕ) : List (List UInt8) → List UInt8 → Prop
  | nil : Interleaved known [] []
  | field {bytes : List UInt8} {written : List (List UInt8)} {rest : List UInt8}
      (h : Interleaved known written rest) : Interleaved known (bytes :: written) (bytes ++ rest)
  | unknown {tag : ℕ} {value : List UInt8} {written : List (List UInt8)} {rest : List UInt8}
      (hpos : 0 < tag) (hlt : tag < 2 ^ 32) (hnew : tag ∉ known) (hvalue : Value tag value)
      (h : Interleaved known written rest) : Interleaved known written (varint tag ++ value ++ rest)

/-- What comes between the fields of a message can be read too, to no effect. -/
theorem exists_items_of_interleaved {written : List (List UInt8)} {bytes : List UInt8}
    (h : Interleaved (fields.map Field.tag) written bytes) {items : List (Item σ)}
    (hwritten : written = items.map Item.bytes) (hitems : ∀ i ∈ items, i.Read rt fields) :
    ∃ items' : List (Item σ), bytes = items'.flatMap Item.bytes ∧
      (∀ i ∈ items', i.Read rt fields) ∧ ∀ m, Item.apply items' m = Item.apply items m := by
  induction h generalizing items with
  | nil =>
    obtain rfl := List.map_eq_nil_iff.mp hwritten.symm
    exact ⟨[], rfl, hitems, fun _ => rfl⟩
  | field h ih =>
    obtain ⟨i, items, rfl, rfl, hrest⟩ := List.map_eq_cons_iff.mp hwritten.symm
    obtain ⟨hi, htail⟩ := List.forall_mem_cons.mp hitems
    obtain ⟨items', rfl, hread, happly⟩ := ih hrest.symm htail
    exact ⟨i :: items', rfl, List.forall_mem_cons.mpr ⟨hi, hread⟩, fun m => happly (i.effect m)⟩
  | @unknown tag value _ _ hpos hlt hnew hvalue h ih =>
    obtain ⟨items', rfl, hread, happly⟩ := ih hwritten hitems
    -- the field is skipped, which leaves the message as it is
    have hskip : Item.Read rt fields ⟨tag, value, id⟩ :=
      .skipped hpos hlt (fun f hf heq => hnew (List.mem_map.mpr ⟨f, hf, heq⟩)) hvalue fun _ => rfl
    exact ⟨⟨tag, value, id⟩ :: items', rfl, List.forall_mem_cons.mpr ⟨hskip, hread⟩, happly⟩

/-- Unknown fields between those of a message make no difference. -/
theorem parseInto_interleaved (hrt : rt.Documented) {columns : List (Column μ σ)}
    (hcols : WellTagged (columns.map Column.field)) {x : μ} (hreads : ∀ c ∈ columns, c.Reads rt x)
    {bytes : List UInt8} (h : Interleaved ((columns.map Column.field).map Field.tag)
      ((items columns x).map Item.bytes) bytes) (m : σ) :
    parseInto rt (columns.map Column.field) m bytes = some (Item.apply (items columns x) m) := by
  obtain ⟨items', rfl, hread, happly⟩ := exists_items_of_interleaved h rfl (read_of_reads hreads)
  rw [parseInto_items hrt hcols hread, happly]

/-! ## Formats -/

/-- How a message is written and read: its fields in the order of their numbers, the parser's state
at the start, and what it holds in the end, if all that is required is there (`IsInitialized`). -/
structure Format (μ σ : Type) where
  columns : List (Column μ σ)
  empty : σ
  complete : σ → Option μ
  tagged : WellTagged (columns.map Column.field)

namespace Format

variable {F : Format μ σ} {x : μ}

/-- `SerializeWithCachedSizes`. -/
def encode (F : Format μ σ) (x : μ) : List UInt8 := serialize F.columns x

/-- `ParseFromArray`. -/
def parse (rt : Runtime) (F : Format μ σ) (bytes : List UInt8) : Option μ :=
  (parseInto rt (F.columns.map Column.field) F.empty bytes).bind F.complete

/-- The fields that are written for a message, each as its bytes. -/
def written (F : Format μ σ) (x : μ) : List (List UInt8) := (items F.columns x).map Item.bytes

/-- The tags that the parser knows. -/
def tags (F : Format μ σ) : List ℕ := (F.columns.map Column.field).map Field.tag

/-- The fields of the message are read, and they make it up. -/
structure Holds (rt : Runtime) (F : Format μ σ) (x : μ) : Prop where
  reads : ∀ c ∈ F.columns, c.Reads rt x
  complete : F.complete (Item.apply (items F.columns x) F.empty) = some x

/-- `AllAreInitialized`: the messages of a repeated field are complete. -/
theorem mapM_complete (F : Format μ σ) {xs : List μ}
    (h : ∀ x ∈ xs, F.complete (Item.apply (items F.columns x) F.empty) = some x) :
    (xs.map fun x => Item.apply (items F.columns x) F.empty).mapM F.complete = some xs := by
  induction xs with
  | nil => rfl
  | cons x xs ih =>
    obtain ⟨hx, hxs⟩ := List.forall_mem_cons.mp h
    rw [List.map_cons, List.mapM_cons, hx, ih hxs]
    rfl

/-- The fields that are written make up the message. -/
theorem flatten_written (F : Format μ σ) (x : μ) : (F.written x).flatten = F.encode x :=
  List.flatMap_def.symm

/-- The message is read back, whatever unknown fields come between its own. -/
theorem Holds.parse_interleaved (h : F.Holds rt x) (hrt : rt.Documented) {bytes : List UInt8}
    (hbytes : Interleaved F.tags (F.written x) bytes) : F.parse rt bytes = some x := by
  rw [parse, parseInto_interleaved hrt F.tagged h.reads hbytes, Option.bind_some, h.complete]

end Format

/-- Nothing need come between the fields. -/
theorem interleaved_flatten (known : List ℕ) (written : List (List UInt8)) :
    Interleaved known written written.flatten := by
  induction written with
  | nil => exact .nil
  | cons bytes written ih => exact .field ih

/-- In particular what is written is read back. -/
theorem Format.Holds.parse_encode {F : Format μ σ} {x : μ} (h : F.Holds rt x)
    (hrt : rt.Documented) : F.parse rt (F.encode x) = some x :=
  h.parse_interleaved hrt (F.flatten_written x ▸ interleaved_flatten F.tags (F.written x))

/-! ## A runtime -/

/-- A number of at most so many groups of seven bits. -/
def readVarint : ℕ → List UInt8 → Option (ℕ × List UInt8)
  | 0, _ => none
  | _, [] => none
  | k + 1, b :: bytes =>
    if b.toNat < 128 then some (b.toNat, bytes)
    else (readVarint k bytes).map fun r => (b.toNat - 128 + 128 * r.1, r.2)

/-- A number that has so many groups of seven bits is read back. -/
theorem readVarint_varint {k n : ℕ} (h : n < 128 ^ (k + 1)) (rest : List UInt8) :
    readVarint (k + 1) (varint n ++ rest) = some (n, rest) := by
  -- on the number of groups; each one has seven bits of the number
  induction k generalizing n with
  | zero =>
    have hlt : n < 128 := by simpa using h
    have hbyte : (UInt8.ofNat n).toNat = n := by
      rw [UInt8.toNat_ofNat']
      omega
    rw [varint, if_pos hlt, List.singleton_append, readVarint, hbyte, if_pos hlt]
  | succ k ih =>
    rw [varint]
    split
    · next hlt =>
      have hbyte : (UInt8.ofNat n).toNat = n := by
        rw [UInt8.toNat_ofNat']
        omega
      rw [List.singleton_append, readVarint, hbyte, if_pos hlt]
    · have hbyte : (UInt8.ofNat (n % 128 + 128)).toNat = n % 128 + 128 := by
        rw [UInt8.toNat_ofNat']
        omega
      have hdiv : n / 128 < 128 ^ (k + 1) := Nat.div_lt_of_lt_mul (by rwa [← Nat.pow_succ'])
      rw [List.cons_append, readVarint, hbyte, if_neg (by omega), ih hdiv, Option.map_some]
      exact congrArg (fun n => some (n, rest)) (by dsimp only; omega)

/-- A runtime that finds every tag and the end where it expects them, and reads no groups. -/
def Runtime.reference : Runtime where
  readTag bytes := ((readVarint 10 bytes).map fun r => (r.1 % 2 ^ 32, r.2)).getD (0, [])
  expectTag tag bytes := (readVarint 10 bytes).bind fun r =>
    if r.1 % 2 ^ 32 = tag then some r.2 else none
  expectAtEnd bytes := bytes.isEmpty
  readInt32 bytes := (readVarint 10 bytes).map fun r => (Int32.ofNat r.1, r.2)
  readUInt32 bytes := (readVarint 10 bytes).map fun r => (UInt32.ofNat r.1, r.2)
  readInt64 bytes := (readVarint 10 bytes).map fun r => ((Int64.ofNat r.1).toInt, r.2)
  readBool bytes := (readVarint 10 bytes).map fun r => (r.1 != 0, r.2)
  readSize bytes := (readVarint 10 bytes).bind fun r => if r.1 < 2 ^ 31 then some r else none
  skipField tag bytes :=
    match tag % 8 with
    | 0 => (readVarint 10 bytes).map Prod.snd
    | 1 => if 8 ≤ bytes.length then some (bytes.drop 8) else none
    | 2 => (readVarint 10 bytes).bind fun r =>
      if r.1 ≤ r.2.length then some (r.2.drop r.1) else none
    | 5 => if 4 ≤ bytes.length then some (bytes.drop 4) else none
    | _ => none

/-- A sign that was extended to 64 bits is cut off again. -/
theorem ofNat_int32 (x : Int32) : Int32.ofNat (int32 x) = x := by
  have hnum : (int32 x : ℤ) = x.toInt % 2 ^ 64 := by
    have h : int32 x = (BitVec.ofInt 64 x.toInt).toNat := rfl
    rw [h, BitVec.toNat_ofInt]
    omega
  have hlow := x.le_toInt
  have hhigh := x.toInt_lt
  rw [← Int32.toInt_inj, ← Int32.ofInt_eq_ofNat, Int32.toInt_ofInt, hnum, Int32.size, Int.bmod_def]
  omega

/-- The 64 bits of a number in the range of `int64` give the number. -/
theorem toInt_ofNat_int64 {x : ℤ} (hlow : -2 ^ 63 ≤ x) (hhigh : x < 2 ^ 63) :
    (Int64.ofNat (int64 x)).toInt = x := by
  have hnum : (int64 x : ℤ) = x % 2 ^ 64 := by
    have h : int64 x = (BitVec.ofInt 64 x).toNat := rfl
    rw [h, BitVec.toNat_ofInt]
    omega
  rw [← Int64.ofInt_eq_ofNat, Int64.toInt_ofInt, hnum, Int64.size, Int.bmod_def]
  omega

/-- The reference runtime does as documented. -/
theorem Runtime.reference_documented : Runtime.reference.Documented where
  readTag_nil := rfl
  readTag_varint tag rest _ hlt := by
    unfold reference
    dsimp only
    rw [readVarint_varint (by omega), Option.map_some, Option.getD_some, Nat.mod_eq_of_lt hlt]
  readTag_of_expectTag tag bytes rest h := by
    obtain ⟨⟨n, left⟩, hread, h⟩ := Option.bind_eq_some_iff.mp h
    obtain ⟨rfl, heq⟩ := Option.ite_none_right_eq_some.mp h
    obtain rfl := Option.some.inj heq
    unfold reference
    dsimp only
    rw [hread, Option.map_some, Option.getD_some]
  nil_of_expectAtEnd bytes h := List.isEmpty_iff.mp h
  readInt32_varint x rest := by
    have hlt : int32 x < 128 ^ 10 := Nat.lt_trans (UInt64.toNat_lt _) (by decide)
    unfold reference
    dsimp only
    rw [readVarint_varint hlt, Option.map_some, ofNat_int32]
  readUInt32_varint x rest := by
    have hlt := x.toNat_lt
    unfold reference
    dsimp only
    rw [readVarint_varint (by omega), Option.map_some, UInt32.ofNat_toNat]
  readInt64_varint x rest hlow hhigh := by
    have hlt : int64 x < 128 ^ 10 := Nat.lt_trans (UInt64.toNat_lt _) (by decide)
    unfold reference
    dsimp only
    rw [readVarint_varint hlt, Option.map_some, toInt_ofNat_int64 hlow hhigh]
  readBool_varint x rest := by
    have hlt : x.toNat < 128 ^ 10 := by cases x <;> decide
    unfold reference
    dsimp only
    rw [readVarint_varint hlt]
    cases x <;> rfl
  readSize_varint n rest hlt := by
    unfold reference
    dsimp only
    rw [readVarint_varint (by omega), Option.bind_some, if_pos hlt]
  skipField_value tag bytes rest h := by
    cases h with
    | varint htag hn =>
      simp only [reference, htag]
      rw [readVarint_varint (by omega), Option.map_some]
    | fixed64 htag hlen =>
      simp only [reference, htag]
      rw [List.length_append, if_pos (by omega), List.drop_left' hlen]
    | delimited htag hlen =>
      simp only [reference, htag]
      rw [List.append_assoc, readVarint_varint (by omega), Option.bind_some]
      dsimp only
      rw [List.length_append, if_pos (by omega), List.drop_left]
    | fixed32 htag hlen =>
      simp only [reference, htag]
      rw [List.length_append, if_pos (by omega), List.drop_left' hlen]

end Protobuf
