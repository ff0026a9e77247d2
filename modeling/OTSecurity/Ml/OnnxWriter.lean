import OTSecurity.Lib.ProtoWire

/-!
# The ONNX writer

Model of `model-training/sih_ml/onnx_writer.py`.  A float is its 32-bit word; a text is one that UTF-8 can
hold, and on every other the code raises.

* `varint`, … , `logisticModel` — the functions of the module, in its order.
* `Tensor.fields`, … , `modelFields` — what the messages are meant to say.

Principal result: `onnx_writer_correct` — that is what a reader of the wire format finds.
-/

namespace OTS.Onnx

open Proto (Field ReadsAs)

def IR_VERSION : Nat := 8

def OPSET : Nat := 13

def FLOAT : Nat := 1

/-- `s.encode("utf-8")`. -/
def utf8 (s : String) : Bytes := s.toUTF8.toList

/-- `struct.pack("<nf", *values)`. -/
def packFloats (values : List UInt32) : Bytes := values.flatMap fun w => (be 4 w.toNat).reverse

/-! ## The writer -/

/-- `_varint`. -/
def varint (n : Int) : Bytes :=
  if n < 0 then Proto.varint (n % 2 ^ 64).toNat else Proto.varint n.toNat

/-- `_key`. -/
def key (field wire : Nat) : Bytes := varint (field <<< 3 ||| wire : Nat)

/-- `_int`. -/
def int (field : Nat) (n : Int) : Bytes := key field 0 ++ varint n

/-- `_bytes`. -/
def bytes (field : Nat) (data : Bytes) : Bytes := key field 2 ++ varint data.length ++ data

/-- `_str`. -/
def str (field : Nat) (s : String) : Bytes := bytes field (utf8 s)

def tensor (name : String) (dims : List Nat) (values : List UInt32) : Bytes :=
  (dims.flatMap fun (d : Nat) => int 1 d) ++ int 2 FLOAT ++ str 8 name ++ bytes 9 (packFloats values)

/-- A dimension: a name or a size. -/
inductive Dim where
  | name (s : String)
  | size (n : Nat)

def Dim.bytes : Dim → Bytes
  | .name s => str 2 s
  | .size n => int 1 n

def valueInfo (name : String) (dims : List Dim) : Bytes :=
  let shape := dims.flatMap fun d => bytes 1 d.bytes
  let tensorType := int 1 FLOAT ++ bytes 2 shape
  str 1 name ++ bytes 2 (bytes 1 tensorType)

def node (op : String) (inputs outputs : List String) (name : String) : Bytes :=
  inputs.flatMap (str 1) ++ outputs.flatMap (str 2) ++ str 3 name ++ str 4 op

/-- The graph of `logistic_model`. -/
def graph (means scales coefficients : List UInt32) (intercept : UInt32) (inputName outputName : String) :
    Bytes :=
  let d := coefficients.length
  [bytes 1 (node "Sub" [inputName, "mean"] ["centered"] "standardize_sub"),
    bytes 1 (node "Div" ["centered", "scale"] ["z"] "standardize_div"),
    bytes 1 (node "MatMul" ["z", "W"] ["logit0"] "linear"),
    bytes 1 (node "Add" ["logit0", "B"] ["logit"] "bias"),
    bytes 1 (node "Sigmoid" ["logit"] [outputName] "sigmoid"),
    str 2 "dga_logistic",
    bytes 5 (tensor "mean" [d] means),
    bytes 5 (tensor "scale" [d] scales),
    bytes 5 (tensor "W" [d, 1] coefficients),
    bytes 5 (tensor "B" [1] [intercept]),
    bytes 11 (valueInfo inputName [.name "batch", .size d]),
    bytes 12 (valueInfo outputName [.name "batch", .size 1])].flatten

/-- `logistic_model`; `none` where it raises `ValueError`. -/
def logisticModel (means scales coefficients : List UInt32) (intercept : UInt32) (inputName outputName doc : String)
    (metadata : List (String × String)) : Option Bytes :=
  if means.length = scales.length ∧ scales.length = coefficients.length then
    some (int 1 IR_VERSION ++ str 2 "sih_ml.onnx_writer" ++ str 3 "1.0.0" ++ str 4 "org.sih" ++ int 5 1 ++
      str 6 doc ++ bytes 7 (graph means scales coefficients intercept inputName outputName) ++
      bytes 8 (str 1 "" ++ int 2 OPSET) ++ metadata.flatMap fun m => bytes 14 (str 1 m.1 ++ str 2 m.2))
  else none

/-! ## What the messages say -/

/-- A tensor. -/
structure Tensor where
  name : String
  dims : List Nat
  values : List UInt32

def Tensor.fields (t : Tensor) : List Field :=
  t.dims.map (.number 1) ++ [.number 2 FLOAT, .bytes 8 (utf8 t.name), .bytes 9 (packFloats t.values)]

def Dim.field : Dim → Field
  | .name s => .bytes 2 (utf8 s)
  | .size n => .number 1 n

def valueInfoFields (name : String) (dims : List Dim) : List Field :=
  [.bytes 1 (utf8 name),
    .message 2 [.message 1 [.number 1 FLOAT, .message 2 (dims.map fun d => .message 1 [d.field])]]]

def nodeFields (op : String) (inputs outputs : List String) (name : String) : List Field :=
  inputs.map (fun s => .bytes 1 (utf8 s)) ++ outputs.map (fun s => .bytes 2 (utf8 s)) ++
    [.bytes 3 (utf8 name), .bytes 4 (utf8 op)]

/-- The tensors of the model. -/
def tensors (means scales coefficients : List UInt32) (intercept : UInt32) : List Tensor :=
  [⟨"mean", [means.length], means⟩, ⟨"scale", [scales.length], scales⟩, ⟨"W", [coefficients.length, 1], coefficients⟩,
    ⟨"B", [1], [intercept]⟩]

def graphFields (means scales coefficients : List UInt32) (intercept : UInt32)
    (inputName outputName : String) : List Field :=
  [.message 1 (nodeFields "Sub" [inputName, "mean"] ["centered"] "standardize_sub"),
    .message 1 (nodeFields "Div" ["centered", "scale"] ["z"] "standardize_div"),
    .message 1 (nodeFields "MatMul" ["z", "W"] ["logit0"] "linear"),
    .message 1 (nodeFields "Add" ["logit0", "B"] ["logit"] "bias"),
    .message 1 (nodeFields "Sigmoid" ["logit"] [outputName] "sigmoid"),
    .bytes 2 (utf8 "dga_logistic")] ++
  (tensors means scales coefficients intercept).map (fun t => .message 5 t.fields) ++
  [.message 11 (valueInfoFields inputName [.name "batch", .size coefficients.length]),
    .message 12 (valueInfoFields outputName [.name "batch", .size 1])]

def modelFields (means scales coefficients : List UInt32) (intercept : UInt32)
    (inputName outputName doc : String) (metadata : List (String × String)) : List Field :=
  [.number 1 IR_VERSION, .bytes 2 (utf8 "sih_ml.onnx_writer"), .bytes 3 (utf8 "1.0.0"),
    .bytes 4 (utf8 "org.sih"), .number 5 1, .bytes 6 (utf8 doc),
    .message 7 (graphFields means scales coefficients intercept inputName outputName),
    .message 8 [.bytes 1 (utf8 ""), .number 2 OPSET]] ++
  metadata.map fun m => .message 14 [.bytes 1 (utf8 m.1), .bytes 2 (utf8 m.2)]

/-- `struct.unpack`. -/
def unpackFloats : Bytes → List UInt32
  | a :: b :: c :: d :: rest => .ofNat (ofBe [d, c, b, a]) :: unpackFloats rest
  | _ => []

/-- An unsigned 64-bit number as a signed one. -/
def signed64 (u : Nat) : Int := if u < 2 ^ 63 then u else (u : Int) - 2 ^ 64

/-! ## Numbers -/

theorem varint_natCast (n : Nat) : varint (n : Int) = Proto.varint n := by
  unfold varint
  rw [if_neg (Int.not_lt.2 (Int.natCast_nonneg n)), Int.toNat_natCast]

/-- **A 64-bit number is read back**, in two's complement. -/
theorem readVarint_varint {n : Int} (hlow : -2 ^ 63 ≤ n) (hhigh : n < 2 ^ 64) (rest : Bytes) :
    ∃ u < 2 ^ 64, Proto.readVarint (varint n ++ rest) = some (u, rest) ∧ (0 ≤ n → (u : Int) = n) ∧
      (n < 2 ^ 63 → signed64 u = n) := by
  unfold varint signed64
  split
  · refine ⟨(n % 2 ^ 64).toNat, by omega, Proto.readVarint_varint _ _, by omega, fun _ => ?_⟩
    rw [if_neg (by omega)]
    omega
  · refine ⟨n.toNat, by omega, Proto.readVarint_varint _ _, by omega, fun h => ?_⟩
    rw [if_pos (by omega)]
    omega

theorem packFloats_length (values : List UInt32) : (packFloats values).length = 4 * values.length := by
  induction values with
  | nil => rfl
  | cons w values ih =>
    unfold packFloats at ih ⊢
    rw [List.flatMap_cons, List.length_append, List.length_reverse, be_length, ih, List.length_cons]
    omega

theorem unpackFloats_packFloats (values : List UInt32) : unpackFloats (packFloats values) = values := by
  induction values with
  | nil => rfl
  | cons w values ih =>
    have hword : ofBe (be 4 w.toNat) = w.toNat := ofBe_be (by have := w.toNat_lt; omega)
    obtain ⟨a, b, c, d, hbytes⟩ : ∃ a b c d, be 4 w.toNat = [a, b, c, d] := ⟨_, _, _, _, rfl⟩
    unfold packFloats at ih ⊢
    rw [List.flatMap_cons, hbytes]
    have hhead : ∀ rest, unpackFloats ([a, b, c, d].reverse ++ rest) =
        .ofNat (ofBe [a, b, c, d]) :: unpackFloats rest := fun _ => rfl
    rw [hhead, ih, ← hbytes, hword, UInt32.ofNat_toNat]

/-- Every tensor has the data of its dimensions. -/
theorem tensors_data {means scales coefficients : List UInt32} {intercept : UInt32} {t : Tensor}
    (ht : t ∈ tensors means scales coefficients intercept) : t.values.length = t.dims.foldr (· * ·) 1 := by
  simp only [tensors, List.mem_cons, List.not_mem_nil, or_false] at ht
  rcases ht with rfl | rfl | rfl | rfl
  · simp
  · simp
  · simp
  · simp

/-! ## The messages -/

theorem key_eq (field : Nat) {wire : Nat} (h : wire < 8) : key field wire = Proto.key field wire := by
  unfold key Proto.key
  rw [varint_natCast, ← Nat.shiftLeft_add_eq_or_of_lt (show wire < 2 ^ 3 from h), Nat.shiftLeft_eq, Nat.mul_comm]

theorem int_eq (field n : Nat) : int field n = Proto.encode [.number field n] := by
  unfold int
  rw [key_eq field (by decide), varint_natCast, Proto.encode_cons, Proto.encode_nil, List.append_nil]
  rfl

theorem bytes_eq (field : Nat) (data : Bytes) : bytes field data = Proto.encode [.bytes field data] := by
  unfold bytes
  rw [key_eq field (by decide), varint_natCast, Proto.encode_cons, Proto.encode_nil, List.append_nil]
  rfl

theorem str_eq (field : Nat) (s : String) : str field s = Proto.encode [.bytes field (utf8 s)] := bytes_eq _ _

/-- The bytes of a message are a field of their own. -/
theorem bytes_encode (field : Nat) (fs : List Field) :
    bytes field (Proto.encode fs) = Proto.encode [.message field fs] := bytes_eq _ _

theorem tensor_eq (t : Tensor) : tensor t.name t.dims t.values = Proto.encode t.fields := by
  unfold tensor Tensor.fields
  rw [Proto.encode_append, Proto.encode_map]
  simp only [int_eq, str_eq, bytes_eq, ← Proto.encode_append, List.append_assoc, List.cons_append,
    List.nil_append]

theorem dim_eq (d : Dim) : d.bytes = Proto.encode [d.field] := by
  cases d with
  | name s => exact str_eq 2 s
  | size n => exact int_eq 1 n

theorem valueInfo_eq (name : String) (dims : List Dim) :
    valueInfo name dims = Proto.encode (valueInfoFields name dims) := by
  unfold valueInfo valueInfoFields
  simp only [dim_eq, bytes_encode, ← Proto.encode_map, int_eq, str_eq, ← Proto.encode_append, List.cons_append,
    List.nil_append]

theorem node_eq (op : String) (inputs outputs : List String) (name : String) :
    node op inputs outputs name = Proto.encode (nodeFields op inputs outputs name) := by
  unfold node nodeFields
  rw [Proto.encode_append, Proto.encode_append, Proto.encode_map, Proto.encode_map]
  simp only [funext (str_eq 1), funext (str_eq 2), str_eq, ← Proto.encode_append, List.append_assoc,
    List.cons_append, List.nil_append]

variable {means scales coefficients : List UInt32} {intercept : UInt32} {inputName outputName doc : String}
  {metadata : List (String × String)}

theorem graph_eq (hmeans : means.length = coefficients.length) (hscales : scales.length = coefficients.length) :
    graph means scales coefficients intercept inputName outputName =
      Proto.encode (graphFields means scales coefficients intercept inputName outputName) := by
  have htensor : ∀ name dims values, tensor name dims values =
      Proto.encode (Tensor.fields ⟨name, dims, values⟩) := fun name dims values => tensor_eq ⟨name, dims, values⟩
  unfold graph graphFields tensors
  rw [hmeans, hscales]
  simp only [node_eq, htensor, valueInfo_eq, bytes_encode, str_eq, List.flatten_cons, List.flatten_nil,
    ← Proto.encode_append, List.append_nil, List.map_cons, List.map_nil, List.cons_append, List.nil_append]

theorem model_eq {bs : Bytes}
    (h : logisticModel means scales coefficients intercept inputName outputName doc metadata = some bs) :
    bs = Proto.encode (modelFields means scales coefficients intercept inputName outputName doc metadata) := by
  unfold logisticModel at h
  split at h
  · rename_i hlen
    rw [← Option.some.inj h, graph_eq (hlen.1.trans hlen.2) hlen.2]
    have hversion : int 5 1 = Proto.encode [.number 5 1] := int_eq 5 1
    unfold modelFields
    simp only [hversion, int_eq, str_eq, bytes_encode, ← Proto.encode_append, List.cons_append, List.nil_append,
      ← Proto.encode_map]
  · cases h

/-! ## Reading the model -/

variable {limit : Nat}

theorem tensor_within {t : Tensor} (hlimit : 114 ≤ limit) (hdims : ∀ d ∈ t.dims, d ≤ limit) :
    Proto.AllWithin limit t.fields := by
  have hfield : ∀ d ∈ t.dims, 1 ≤ 1 ∧ 8 * 1 ≤ limit ∧ d ≤ limit :=
    fun d hd => ⟨Nat.le_refl 1, by omega, hdims d hd⟩
  simp only [Tensor.fields, FLOAT, Proto.allWithin_append, Proto.allWithin_map, Proto.allWithin_cons,
    Proto.allWithin_nil, and_true, Proto.within_number, Proto.within_bytes]
  exact ⟨hfield, by omega⟩

theorem node_within (hlimit : 114 ≤ limit) (op : String) (inputs outputs : List String) (name : String) :
    Proto.AllWithin limit (nodeFields op inputs outputs name) := by
  simp only [nodeFields, Proto.allWithin_append, Proto.allWithin_map, Proto.allWithin_cons, Proto.allWithin_nil, and_true,
    Proto.within_bytes]
  exact ⟨⟨fun _ _ => by omega, fun _ _ => by omega⟩, by omega⟩

theorem valueInfo_within (hlimit : 114 ≤ limit) (name batch : String) {n : Nat} (hn : n ≤ limit) :
    Proto.AllWithin limit (valueInfoFields name [.name batch, .size n]) := by
  simp only [valueInfoFields, Dim.field, FLOAT, List.map_cons, List.map_nil, Proto.allWithin_cons,
    Proto.allWithin_nil, and_true, Proto.within_number, Proto.within_bytes, Proto.within_message]
  omega

theorem graph_within (hlimit : 114 ≤ limit) (hmeans : means.length = coefficients.length)
    (hscales : scales.length = coefficients.length) (hd : coefficients.length ≤ limit) :
    Proto.AllWithin limit (graphFields means scales coefficients intercept inputName outputName) := by
  have hkey : ∀ k ≤ 14, 8 * k + 2 ≤ limit := by omega
  have hone : 1 ≤ limit := by omega
  have htensor : ∀ t ∈ tensors means scales coefficients intercept, Proto.AllWithin limit t.fields := by
    intro t ht
    apply tensor_within hlimit
    simp only [tensors, List.mem_cons, List.not_mem_nil, or_false] at ht
    rcases ht with rfl | rfl | rfl | rfl
    · simp [hmeans, hd]
    · simp [hscales, hd]
    · simp [hd, hone]
    · simp [hone]
  simp only [graphFields, Proto.allWithin_append, Proto.allWithin_map, Proto.allWithin_cons,
    Proto.allWithin_nil, and_true, Proto.within_bytes, Proto.within_message, node_within hlimit,
    valueInfo_within hlimit _ _ hd, valueInfo_within hlimit _ _ hone]
  refine ⟨⟨by omega, fun t ht => ⟨by omega, htensor t ht⟩⟩, by omega⟩

theorem model_within (hlimit : 114 ≤ limit) (hmeans : means.length = coefficients.length)
    (hscales : scales.length = coefficients.length) (hd : coefficients.length ≤ limit) :
    Proto.AllWithin limit
      (modelFields means scales coefficients intercept inputName outputName doc metadata) := by
  simp only [modelFields, IR_VERSION, OPSET, Proto.allWithin_append, Proto.allWithin_map, Proto.allWithin_cons,
    Proto.allWithin_nil, and_true, Proto.within_number, Proto.within_bytes, Proto.within_message,
    graph_within hlimit hmeans hscales hd]
  exact ⟨by omega, fun _ _ => by omega⟩

/-- The graph is longer than the nodes that every graph has. -/
theorem graph_length (means scales coefficients : List UInt32) (intercept : UInt32)
    (inputName outputName : String) : 107 ≤ (Proto.encode
    (graphFields means scales coefficients intercept inputName outputName)).length := by
  have hnodes : (Proto.encode [
      .message 1 (nodeFields "Div" ["centered", "scale"] ["z"] "standardize_div"),
      .message 1 (nodeFields "MatMul" ["z", "W"] ["logit0"] "linear"),
      .message 1 (nodeFields "Add" ["logit0", "B"] ["logit"] "bias")]).length = 107 := by
    decide +kernel
  obtain ⟨rest, hrest⟩ : ∃ rest, graphFields means scales coefficients intercept inputName outputName =
      [.message 1 (nodeFields "Sub" [inputName, "mean"] ["centered"] "standardize_sub")] ++
        ([.message 1 (nodeFields "Div" ["centered", "scale"] ["z"] "standardize_div"),
          .message 1 (nodeFields "MatMul" ["z", "W"] ["logit0"] "linear"),
          .message 1 (nodeFields "Add" ["logit0", "B"] ["logit"] "bias")] ++ rest) := ⟨_, rfl⟩
  rw [hrest, Proto.encode_append, Proto.encode_append, List.length_append, List.length_append, hnodes]
  omega

/-- The model is at least as long as its greatest number. -/
theorem model_length (means scales coefficients : List UInt32) (intercept : UInt32)
    (inputName outputName doc : String) (metadata : List (String × String)) : 114 ≤ (Proto.encode
      (modelFields means scales coefficients intercept inputName outputName doc metadata)).length ∧
    coefficients.length ≤ (Proto.encode
      (modelFields means scales coefficients intercept inputName outputName doc metadata)).length := by
  have hproducer : (Proto.encode [.number 1 IR_VERSION, .bytes 2 (utf8 "sih_ml.onnx_writer")]).length = 22 := by
    decide +kernel
  obtain ⟨rest, hmodel, hgraph⟩ : ∃ rest,
      modelFields means scales coefficients intercept inputName outputName doc metadata =
        [.number 1 IR_VERSION, .bytes 2 (utf8 "sih_ml.onnx_writer")] ++ rest ∧
      .message 7 (graphFields means scales coefficients intercept inputName outputName) ∈ rest := by
    refine ⟨_, rfl, ?_⟩
    simp
  have hlen := Proto.message_le_encode hgraph
  rw [hmodel, Proto.encode_append, List.length_append, hproducer]
  constructor
  · have hnodes := graph_length means scales coefficients intercept inputName outputName
    omega
  · have htensor : (Proto.encode (Tensor.fields ⟨"W", [coefficients.length, 1], coefficients⟩)).length ≤
        (Proto.encode (graphFields means scales coefficients intercept inputName outputName)).length := by
      apply Proto.message_le_encode (k := 5)
      simp [graphFields, tensors]
    have hraw : (packFloats coefficients).length ≤
        (Proto.encode (Tensor.fields ⟨"W", [coefficients.length, 1], coefficients⟩)).length := by
      apply Proto.data_le_encode (k := 9)
      simp [Tensor.fields]
    rw [packFloats_length] at hraw
    omega

/-- **The writer is correct.**  A varint is read back as the 64-bit number that was written, and a model of
any dimension is read to its last byte as the fields that it is meant to have, in order at every level; every
tensor has the data of its dimensions, four bytes an element. -/
theorem onnx_writer_correct :
    (∀ (n : Int) (rest : Bytes), -2 ^ 63 ≤ n → n < 2 ^ 64 →
      ∃ u < 2 ^ 64, Proto.readVarint (varint n ++ rest) = some (u, rest) ∧ (0 ≤ n → (u : Int) = n) ∧
        (n < 2 ^ 63 → signed64 u = n)) ∧
    ∀ (d : Nat) (means scales coefficients : List UInt32) (intercept : UInt32)
      (inputName outputName doc : String) (metadata : List (String × String)),
      means.length = d → scales.length = d → coefficients.length = d →
      ∃ bs, logisticModel means scales coefficients intercept inputName outputName doc metadata = some bs ∧
        (∀ ok : Nat → Bool, (∀ n ≤ bs.length, ok n = true) →
          ReadsAs ok bs (modelFields means scales coefficients intercept inputName outputName doc metadata)) ∧
        ∀ t ∈ tensors means scales coefficients intercept,
          (packFloats t.values).length = 4 * t.dims.foldr (· * ·) 1 ∧
            unpackFloats (packFloats t.values) = t.values := by
  refine ⟨fun n rest hlow hhigh => readVarint_varint hlow hhigh rest, ?_⟩
  intro d means scales coefficients intercept inputName outputName doc metadata hmeans hscales hcoefficients
  obtain ⟨bs, hbs⟩ : ∃ bs,
      logisticModel means scales coefficients intercept inputName outputName doc metadata = some bs :=
    ⟨_, if_pos ⟨hmeans.trans hscales.symm, hscales.trans hcoefficients.symm⟩⟩
  refine ⟨bs, hbs, fun ok hok => ?_, fun t ht => ⟨?_, unpackFloats_packFloats t.values⟩⟩
  · obtain rfl := model_eq hbs
    obtain ⟨hlimit, hd⟩ :=
      model_length means scales coefficients intercept inputName outputName doc metadata
    exact Proto.readsAs_encode hok (model_within hlimit (hmeans.trans hcoefficients.symm)
      (hscales.trans hcoefficients.symm) hd) (Nat.le_refl _)
  · rw [packFloats_length, tensors_data ht]

/-- A negative number, and a model of two features. -/
theorem onnx_writer_correct_two :
    (∃ u < 2 ^ 64, Proto.readVarint (varint (-5) ++ [7]) = some (u, [7]) ∧ signed64 u = -5) ∧
    ∃ bs, logisticModel [0, 0x3F800000] [0x3F800000, 0x40000000] [0x3F000000, 0xBF800000] 0x3DCCCCCD "features"
        "probability" "sample" [("version", "1")] = some bs ∧
      ReadsAs (fun _ => true) bs (modelFields [0, 0x3F800000] [0x3F800000, 0x40000000]
        [0x3F000000, 0xBF800000] 0x3DCCCCCD "features" "probability" "sample" [("version", "1")]) := by
  obtain ⟨u, hu, hread, -, hsigned⟩ := onnx_writer_correct.1 (-5) [7] (by decide) (by decide)
  obtain ⟨bs, hbs, hreads, -⟩ := onnx_writer_correct.2 2 [0, 0x3F800000] [0x3F800000, 0x40000000]
    [0x3F000000, 0xBF800000] 0x3DCCCCCD "features" "probability" "sample" [("version", "1")] rfl rfl rfl
  exact ⟨⟨u, hu, hread, hsigned (by decide)⟩, bs, hbs, hreads _ fun _ _ => rfl⟩

end OTS.Onnx
