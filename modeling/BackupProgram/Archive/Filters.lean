import BackupProgram.Native.CircularBuffer

/-!
# Filters around the streams of an archive

A filter generator wraps a stream into one that decodes what is read from it, or encodes what is
written to it. `doInputFiltering` and `doOutputFiltering` nest the wrappers of all filters of an
archive; a wrapper is described by what it does to whole byte strings.
-/

namespace BackupProgram

/-- `filterInput` gives what is read through the filter, if the bytes below can be decoded. -/
structure FilterGenerator where
  filterInput : List Byte → Option (List Byte)
  filterOutput : List Byte → List Byte
  isCompression : Bool
  isEncryption : Bool

/-- `CompressionFilterGenerator`, over what its native streams do. -/
def compressionFilterGenerator (decompress : List Byte → Option (List Byte))
    (compress : List Byte → List Byte) : FilterGenerator where
  filterInput := decompress
  filterOutput := compress
  isCompression := true
  isEncryption := false

/-- A stream and the filters wrapped around it. `isFilter` says that the stream is itself one. -/
inductive FilterNest where
  | stream (isFilter : Bool)
  | identity (inner : FilterNest)
  | filter (generator : FilterGenerator) (leaveOpen : Bool) (inner : FilterNest)

namespace FilterNest

/-- `stream as InputFilter` and `stream as OutputFilter`. -/
def asFilter : FilterNest → Option FilterNest
  | .stream false => none
  | nest => some nest

/-- What is read from the nest when the innermost stream holds `bytes`. -/
def read : FilterNest → List Byte → Option (List Byte)
  | .stream _, bytes => some bytes
  | .identity inner, bytes => inner.read bytes
  | .filter generator _ inner, bytes => (inner.read bytes).bind generator.filterInput

/-- What reaches the innermost stream when `bytes` are written to the nest. -/
def written : FilterNest → List Byte → List Byte
  | .stream _, bytes => bytes
  | .identity inner, bytes => inner.written bytes
  | .filter generator _ inner, bytes => inner.written (generator.filterOutput bytes)

end FilterNest

namespace FilterNest

/-- Disposing of the nest leaves the filter above the innermost stream as it is, with the native
stream of that filter. -/
def keepsOpen : FilterNest → Bool
  | .stream _ => false
  | .identity _ => false
  | .filter _ leaveOpen (.stream _) => leaveOpen
  | .filter _ _ inner => inner.keepsOpen

end FilterNest

structure Archive where
  filters : List FilterGenerator

namespace Archive

/-- The constructor adds the compression. -/
def new (compression : FilterGenerator) : Archive := ⟨[compression]⟩

def addFilterGenerator (a : Archive) (fg : FilterGenerator) : Archive := ⟨a.filters ++ [fg]⟩

/-- The filters in the order of the list, without the encryptions unless they are included. -/
def enumeration (a : Archive) (includeEncryption : Bool) : List FilterGenerator :=
  if includeEncryption then a.filters else a.filters.filter fun x => !x.isEncryption

/-- One round of either loop; `wrap` is what has been wrapped so far. -/
def wrapNext (stream : FilterNest) (state : Option FilterNest × Bool)
    (filterGenerator : FilterGenerator) : Option FilterNest × Bool :=
  let (ret, first) := state
  (some (.filter filterGenerator (ret.isNone && first) (ret.getD stream)), false)

def doInputFiltering (a : Archive) (stream : FilterNest) (includeEncryption : Bool := true) :
    FilterNest :=
  let (ret, _) :=
    (a.enumeration includeEncryption).foldl (wrapNext stream) (stream.asFilter, true)
  ret.getD (.identity stream)

def doOutputFiltering (a : Archive) (stream : FilterNest) (includeEncryption : Bool := true) :
    FilterNest :=
  let (ret, _) :=
    (a.enumeration includeEncryption).reverse.foldl (wrapNext stream) (stream.asFilter, true)
  ret.getD (.identity stream)

end Archive

/-! ### Chains of filters -/

namespace FilterGenerator

/-- The input side undoes the output side. -/
def Inverts (g : FilterGenerator) : Prop :=
  ∀ bytes, g.filterInput (g.filterOutput bytes) = some bytes

/-- Only what the output side produces is decoded. -/
def Strict (g : FilterGenerator) : Prop :=
  ∀ encoded bytes, g.filterInput encoded = some bytes → encoded = g.filterOutput bytes

/-- Encoding, by the first filter of the list first. -/
def encodeAll (gs : List FilterGenerator) (bytes : List Byte) : List Byte :=
  gs.foldl (fun bytes g => g.filterOutput bytes) bytes

/-- Decoding, by the first filter of the list first. -/
def decodeAll (gs : List FilterGenerator) (bytes : List Byte) : Option (List Byte) :=
  gs.foldlM (fun bytes g => g.filterInput bytes) bytes

lemma decodeAll_cons (g : FilterGenerator) (gs : List FilterGenerator) (bytes : List Byte) :
    decodeAll (g :: gs) bytes = (g.filterInput bytes).bind (decodeAll gs) := by
  rw [decodeAll, List.foldlM_cons]
  rfl

lemma encodeAll_reverse_cons (g : FilterGenerator) (gs : List FilterGenerator)
    (bytes : List Byte) :
    encodeAll (g :: gs).reverse bytes = g.filterOutput (encodeAll gs.reverse bytes) := by
  rw [encodeAll, List.reverse_cons, List.foldl_append]
  rfl

/-- Decoding undoes an encoding in the opposite order. -/
lemma decodeAll_encodeAll_reverse {gs : List FilterGenerator} (h : ∀ g ∈ gs, g.Inverts)
    (bytes : List Byte) : decodeAll gs (encodeAll gs.reverse bytes) = some bytes := by
  induction gs with
  | nil => rfl
  | cons g gs ih =>
    rw [encodeAll_reverse_cons, decodeAll_cons, h g List.mem_cons_self, Option.bind_some]
    exact ih fun g' hg' => h g' (List.mem_cons_of_mem _ hg')

lemma eq_of_decodeAll {gs : List FilterGenerator} (h : ∀ g ∈ gs, g.Strict)
    {encoded bytes : List Byte} (hdecode : decodeAll gs encoded = some bytes) :
    encoded = encodeAll gs.reverse bytes := by
  induction gs generalizing encoded with
  | nil => exact Option.some.inj hdecode
  | cons g gs ih =>
    rw [decodeAll_cons, Option.bind_eq_some_iff] at hdecode
    obtain ⟨decoded, hg, hgs⟩ := hdecode
    rw [encodeAll_reverse_cons, ← ih (fun g' hg' => h g' (List.mem_cons_of_mem _ hg')) hgs]
    exact h g List.mem_cons_self _ _ hg

end FilterGenerator

open FilterGenerator

namespace Archive

variable {a : Archive} {includeEncryption : Bool}

lemma read_asFilter_getD (stream : FilterNest) (bytes : List Byte) :
    (stream.asFilter.getD (.identity stream)).read bytes = stream.read bytes := by
  rcases stream with (_ | _) | _ | _ <;> rfl

lemma written_asFilter_getD (stream : FilterNest) (bytes : List Byte) :
    (stream.asFilter.getD (.identity stream)).written bytes = stream.written bytes := by
  rcases stream with (_ | _) | _ | _ <;> rfl

lemma getD_asFilter (stream : FilterNest) : stream.asFilter.getD stream = stream := by
  rcases stream with (_ | _) | _ | _ <;> rfl

/-- The first filter of the list is the innermost one. -/
lemma read_wrap (gs : List FilterGenerator) (stream : FilterNest) (ret : Option FilterNest)
    (first : Bool) (bytes : List Byte)
    (h : ∀ bytes, (ret.getD (.identity stream)).read bytes = (ret.getD stream).read bytes) :
    ((gs.foldl (wrapNext stream) (ret, first)).1.getD (.identity stream)).read bytes =
      ((ret.getD stream).read bytes).bind (decodeAll gs) := by
  induction gs generalizing ret first with
  | nil =>
    rw [List.foldl_nil, h]
    cases (ret.getD stream).read bytes <;> rfl
  | cons g gs ih =>
    rw [List.foldl_cons, wrapNext, ih _ _ fun _ => rfl, Option.getD_some, FilterNest.read,
      Option.bind_assoc]
    simp only [decodeAll_cons]

lemma written_wrap (gs : List FilterGenerator) (stream : FilterNest) (ret : Option FilterNest)
    (first : Bool) (bytes : List Byte)
    (h : ∀ bytes, (ret.getD (.identity stream)).written bytes = (ret.getD stream).written bytes) :
    ((gs.foldl (wrapNext stream) (ret, first)).1.getD (.identity stream)).written bytes =
      (ret.getD stream).written (encodeAll gs.reverse bytes) := by
  induction gs generalizing ret first with
  | nil => exact h bytes
  | cons g gs ih =>
    rw [List.foldl_cons, wrapNext, ih _ _ fun _ => rfl, Option.getD_some, FilterNest.written,
      encodeAll_reverse_cons]

/-- On input the first filter of the list is the first to decode. -/
lemma read_doInputFiltering (a : Archive) (stream : FilterNest) (includeEncryption : Bool)
    (bytes : List Byte) :
    (a.doInputFiltering stream includeEncryption).read bytes =
      (stream.read bytes).bind (decodeAll (a.enumeration includeEncryption)) := by
  have h := read_wrap (a.enumeration includeEncryption) stream stream.asFilter
    true bytes fun bytes => by rw [read_asFilter_getD, getD_asFilter]
  rw [getD_asFilter] at h
  exact h

/-- On output, too, the first filter of the list is the first to encode. -/
lemma written_doOutputFiltering (a : Archive) (stream : FilterNest) (includeEncryption : Bool)
    (bytes : List Byte) :
    (a.doOutputFiltering stream includeEncryption).written bytes =
      stream.written (encodeAll (a.enumeration includeEncryption) bytes) := by
  have h := written_wrap (a.enumeration includeEncryption).reverse stream stream.asFilter
    true bytes fun bytes => by rw [written_asFilter_getD, getD_asFilter]
  rw [getD_asFilter, List.reverse_reverse] at h
  exact h

/-- What is written through the output filters is read back through the input filters. -/
def RoundTrips (a : Archive) (includeEncryption : Bool) : Prop :=
  ∀ outFile inFile bytes,
    (a.doInputFiltering (.stream inFile) includeEncryption).read
      ((a.doOutputFiltering (.stream outFile) includeEncryption).written bytes) = some bytes

lemma roundTrips_iff_decodeAll :
    a.RoundTrips includeEncryption ↔
      ∀ bytes, decodeAll (a.enumeration includeEncryption)
        (encodeAll (a.enumeration includeEncryption) bytes) = some bytes := by
  simp only [RoundTrips, read_doInputFiltering, written_doOutputFiltering, FilterNest.read,
    FilterNest.written, Option.bind_some]
  exact ⟨fun h => h false false, fun h _ _ => h⟩

/-- The archive after a list of generators has been added to a new one. -/
def ofGenerators (compression : FilterGenerator) (added : List FilterGenerator) : Archive :=
  added.foldl addFilterGenerator (new compression)

lemma filters_ofGenerators (compression : FilterGenerator) (added : List FilterGenerator) :
    (ofGenerators compression added).filters = compression :: added := by
  have h : ∀ a : Archive, (added.foldl addFilterGenerator a).filters = a.filters ++ added := by
    induction added with
    | nil => intro a; simp
    | cons fg added ih => intro a; simp [ih, addFilterGenerator]
  exact h (new compression)

lemma mem_enumeration {g : FilterGenerator} (h : g ∈ a.enumeration includeEncryption) :
    g ∈ a.filters := by
  rw [enumeration] at h
  split_ifs at h
  · exact h
  · exact List.mem_of_mem_filter h

/-- How many filters are selected depends only on which of them are encryptions. -/
lemma length_enumeration_congr {a a' : Archive}
    (h : a'.filters.map (·.isEncryption) = a.filters.map (·.isEncryption)) :
    (a'.enumeration includeEncryption).length = (a.enumeration includeEncryption).length := by
  have hcount : ∀ gs : List FilterGenerator, (gs.filter fun x => !x.isEncryption).length =
      (gs.map (·.isEncryption)).countP (!·) := by
    intro gs
    rw [List.countP_map, List.countP_eq_length_filter]
    rfl
  rw [enumeration, enumeration]
  split_ifs
  · simpa using congrArg List.length h
  · rw [hcount, hcount, h]

/-- A filter that puts a tag before the bytes. -/
def tagFilter (tag : Byte) (isEncryption : Bool) : FilterGenerator where
  filterInput
    | [] => none
    | t :: bytes => if t = tag then some bytes else none
  filterOutput bytes := tag :: bytes
  isCompression := false
  isEncryption := isEncryption

lemma inverts_tagFilter (tag : Byte) (isEncryption : Bool) :
    (tagFilter tag isEncryption).Inverts :=
  fun _ => if_pos rfl

/-- A compression that puts a tag before the bytes. -/
def tagCompression : FilterGenerator :=
  compressionFilterGenerator (tagFilter 0 false).filterInput (tagFilter 0 false).filterOutput

lemma inverts_tagCompression : tagCompression.Inverts := inverts_tagFilter 0 false

lemma encodeAll_eq_cons {gs : List FilterGenerator} (h : ∀ g ∈ gs, ∃ e, g = tagFilter 1 e)
    (hne : gs ≠ []) (bytes : List Byte) : ∃ rest, encodeAll gs bytes = 1 :: rest := by
  induction gs using List.reverseRecOn with
  | nil => exact absurd rfl hne
  | append_singleton gs g _ =>
    obtain ⟨e, rfl⟩ := h g (by simp)
    exact ⟨encodeAll gs bytes, by rw [encodeAll, List.foldl_append]; rfl⟩

/-- With tags, any filter that is selected beside the compression makes the decoder of the
compression meet the tag of that filter. -/
lemma not_roundTrips_tags {compression : FilterGenerator}
    (hcompression : compression = tagCompression)
    {added : List FilterGenerator} (hadded : ∀ g ∈ added, ∃ e, g = tagFilter 1 e)
    (hlen : ((ofGenerators compression added).enumeration includeEncryption).length ≠ 1) :
    ¬ (ofGenerators compression added).RoundTrips includeEncryption := by
  subst hcompression
  obtain ⟨selected, hselected, hmem⟩ : ∃ selected,
      (ofGenerators tagCompression added).enumeration includeEncryption =
        tagCompression :: selected ∧ ∀ g ∈ selected, g ∈ added := by
    rw [enumeration, filters_ofGenerators]
    split_ifs
    · exact ⟨added, rfl, fun _ h => h⟩
    · exact ⟨_, rfl, fun _ h => List.mem_of_mem_filter h⟩
  have hne : selected ≠ [] := by
    rintro rfl
    exact hlen (by rw [hselected]; rfl)
  rw [roundTrips_iff_decodeAll, hselected]
  intro h
  obtain ⟨rest, hrest⟩ :=
    encodeAll_eq_cons (fun g hg => hadded g (hmem g hg)) hne (tagCompression.filterOutput [])
  have hzero := h []
  rw [show encodeAll (tagCompression :: selected) [] =
    encodeAll selected (tagCompression.filterOutput []) from rfl, hrest, decodeAll_cons] at hzero
  cases hzero

/-- Whether a chain of filters inverts. It does if it does not matter whether the filters encode in
the order of the list or in the opposite one, and for decoders that accept only what their encoder
produces it does only then. For a list of which only the encryption flags are known, it does exactly
if no filter but the compression is selected. -/
theorem roundTrips_iff (decompress : List Byte → Option (List Byte))
    (compress : List Byte → List Byte) (added : List FilterGenerator)
    (hcompression : (compressionFilterGenerator decompress compress).Inverts)
    (hadded : ∀ g ∈ added, g.Inverts) (includeEncryption : Bool) :
    let a := ofGenerators (compressionFilterGenerator decompress compress) added
    let gs := a.enumeration includeEncryption
    ((∀ bytes, encodeAll gs bytes = encodeAll gs.reverse bytes) →
        a.RoundTrips includeEncryption) ∧
      ((∀ g ∈ gs, g.Strict) → a.RoundTrips includeEncryption →
        ∀ bytes, encodeAll gs bytes = encodeAll gs.reverse bytes) ∧
      ((∀ decompress' compress' added',
          added'.map (·.isEncryption) = added.map (·.isEncryption) →
          (compressionFilterGenerator decompress' compress').Inverts →
          (∀ g ∈ added', g.Inverts) →
          (ofGenerators (compressionFilterGenerator decompress' compress') added').RoundTrips
            includeEncryption) ↔ gs.length = 1) := by
  intro a gs
  have hfilters : a.filters = compressionFilterGenerator decompress compress :: added :=
    filters_ofGenerators _ added
  have hinverts : ∀ g ∈ gs, g.Inverts := by
    intro g hg
    have hmem := mem_enumeration hg
    rw [hfilters, List.mem_cons] at hmem
    rcases hmem with rfl | hmem
    · exact hcompression
    · exact hadded g hmem
  refine ⟨fun hsame => ?_, fun hstrict hround bytes => ?_, fun hall => ?_, fun hone => ?_⟩
  · rw [roundTrips_iff_decodeAll]
    intro bytes
    rw [hsame]
    exact decodeAll_encodeAll_reverse hinverts bytes
  · rw [roundTrips_iff_decodeAll] at hround
    exact eq_of_decodeAll hstrict (hround bytes)
  · -- tags tell the orders apart
    have hflags : (added.map fun g => tagFilter 1 g.isEncryption).map (·.isEncryption) =
        added.map (·.isEncryption) := by
      rw [List.map_map]
      rfl
    have htags : ∀ g ∈ added.map (fun g => tagFilter 1 g.isEncryption), ∃ e, g = tagFilter 1 e := by
      intro g hg
      obtain ⟨g', -, rfl⟩ := List.mem_map.mp hg
      exact ⟨_, rfl⟩
    have hround := hall (tagFilter 0 false).filterInput (tagFilter 0 false).filterOutput
      (added.map fun g => tagFilter 1 g.isEncryption) hflags inverts_tagCompression
      (fun g hg => by obtain ⟨e, rfl⟩ := htags g hg; exact inverts_tagFilter 1 e)
    by_contra hlen
    refine not_roundTrips_tags rfl htags ?_ hround
    rwa [length_enumeration_congr (a := a)]
    rw [hfilters, filters_ofGenerators, List.map_cons, List.map_cons, hflags]
    rfl
  · -- a single filter encodes in the same order either way
    intro decompress' compress' added' hflags hcompression' hadded'
    have hlen : ((ofGenerators (compressionFilterGenerator decompress' compress')
        added').enumeration includeEncryption).length = 1 := by
      rw [length_enumeration_congr (a := a), hone]
      rw [hfilters, filters_ofGenerators, List.map_cons, List.map_cons, hflags]
      rfl
    obtain ⟨g, hg⟩ := List.length_eq_one_iff.mp hlen
    rw [roundTrips_iff_decodeAll, hg]
    intro bytes
    have hmem : g ∈ (ofGenerators (compressionFilterGenerator decompress' compress')
        added').filters := mem_enumeration (by rw [hg]; exact List.mem_singleton.mpr rfl)
    rw [filters_ofGenerators, List.mem_cons] at hmem
    refine decodeAll_encodeAll_reverse (fun g' hg' => ?_) bytes
    rw [List.mem_singleton.mp hg']
    rcases hmem with rfl | hmem
    · exact hcompression'
    · exact hadded' g hmem

/-- A compression and an encryption that is not selected. -/
theorem roundTrips_tagCompression :
    (ofGenerators tagCompression [tagFilter 1 true]).RoundTrips false :=
  (roundTrips_iff (tagFilter 0 false).filterInput (tagFilter 0 false).filterOutput
    [tagFilter 1 true] inverts_tagCompression
    (fun g hg => by rw [List.mem_singleton.mp hg]; exact inverts_tagFilter 1 true) false).1
    fun _ => rfl

/-- A compression and an encryption: nothing can be read back. -/
theorem not_roundTrips_encryption :
    (tagCompression.Inverts ∧ (tagFilter 1 true).Inverts) ∧
      ¬ (ofGenerators tagCompression [tagFilter 1 true]).RoundTrips true := by
  refine ⟨⟨inverts_tagCompression, inverts_tagFilter 1 true⟩, not_roundTrips_tags rfl ?_ ?_⟩
  · intro g hg
    exact ⟨true, List.mem_singleton.mp hg⟩
  · rw [enumeration, if_pos rfl, filters_ofGenerators]
    simp

end Archive

end BackupProgram
