import SchemaBinding.Service.Reader

/-! Documents at URLs. Reading takes from a disk nothing but what references resolve to, and a reference resolves against
a URL, or as a URL of its own, without a disk.
Main statements: what is read of a document at a URL is the same with any disk. -/
namespace SchemaBinding

/-- A URI that references are joined to. -/
def Location.IsUrl (uri : String) : Prop := (Url.parse? uri).isSome

instance (uri : String) : Decidable (Location.IsUrl uri) := inferInstanceAs (Decidable (_ = true))

theorem Location.classify_eq_url_iff {disk : Disk} {text : String} {u : Url} :
    classify disk text = .url u ↔ (Url.parse? text).filter (fun u => 1 < u.scheme.length) = some u := by
  unfold classify
  cases (Url.parse? text).filter fun u => 1 < u.scheme.length with
  | none =>
    simp only [reduceCtorEq,iff_false]
    split <;> simp
  | some v => simp

theorem Location.resolve_disk {uri : String} (h : IsUrl uri) (disk disk' : Disk) (reference : String) :
    resolve disk (some uri) reference = resolve disk' (some uri) reference := by
  obtain ⟨base,hbase⟩ := Option.isSome_iff_exists.mp h
  have hother (disk : Disk) (hnone : (Url.parse? reference).filter (fun u => 1 < u.scheme.length) = none) :
      resolve disk (some uri) reference = ((Url.join base reference).mapError Failure.url |>.map Url.text) := by
    have hurl (u : Url) : classify disk reference ≠ .url u := fun h => by simp [classify_eq_url_iff.mp h] at hnone
    unfold resolve
    split
    · exact absurd ‹_› (hurl _)
    · simp only [hbase]
  cases hreference : (Url.parse? reference).filter fun u => 1 < u.scheme.length with
  | none => rw [hother disk hreference,hother disk' hreference]
  | some u => simp only [resolve,classify_eq_url_iff.mpr hreference]

namespace Reading

/-- Readings that resolve every reference to the same. -/
structure Same (r r' : Reading) : Prop where
  location : r.location = r'.location
  targetNamespace : r.targetNamespace = r'.targetNamespace
  resolve? : r.resolve? = r'.resolve?

theorem same_of_isUrl {uri : String} (h : Location.IsUrl uri) (catalog : Catalog) (disk disk' : Disk)
    (space : Option String) : Same { resolver := { disk, catalog }, location := some uri, targetNamespace := space }
      { resolver := { disk := disk', catalog }, location := some uri, targetNamespace := space } where
  location := rfl
  targetNamespace := rfl
  resolve? := by
    funext reference
    simp only [Reading.resolve?,Resolver.resolve,Location.resolve_disk h disk disk']

variable {r r' : Reading}

theorem Same.fail_eq {α : Type} (h : Same r r') (message : String) : r.fail (α := α) message = r'.fail message := by
  rw [fail,fail,h.location]

end Reading

variable {r r' : Reading}

namespace Schema

theorem ofElement_same (h : r.Same r') (e : Xml.Element) : ofElement r e = ofElement r' e := by
  have hreference : readReference r = readReference r' := by
    funext kind e
    rw [readReference,readReference,h.resolve?]
  have hchild : addChild r = addChild r' := by
    funext s e
    rw [addChild,addChild,hreference]
  rw [ofElement,ofElement,h.fail_eq,hchild,h.location,h.targetNamespace]

theorem read_same (h : r.Same r') (bytes : Bytes) : read r bytes = read r' bytes := by
  have helement : ofElement r = ofElement r' := funext (ofElement_same h)
  unfold read
  rw [h.fail_eq,helement]

end Schema

namespace Definitions

theorem ofElement_same (h : r.Same r') (e : Xml.Element) : ofElement r e = ofElement r' e := by
  have himport : readImport r = readImport r' := by
    funext e
    rw [readImport,readImport,h.resolve?]
  have hinner : Reading.Same { r with targetNamespace := none } { r' with targetNamespace := none } := by
    refine ⟨h.location,rfl,?_⟩
    exact h.resolve?
  have hschemas : readSchemas r = readSchemas r' := by
    funext e
    rw [readSchemas,readSchemas,funext (Schema.ofElement_same hinner)]
  have hchild : addChild r = addChild r' := by
    funext d e
    rw [addChild,addChild,himport,hschemas]
  rw [ofElement,ofElement,h.fail_eq,hchild,h.location,h.targetNamespace]

theorem read_same (h : r.Same r') (bytes : Bytes) : read r bytes = read r' bytes := by
  have helement : ofElement r = ofElement r' := funext (ofElement_same h)
  unfold read
  rw [h.fail_eq,helement]

end Definitions
end SchemaBinding
