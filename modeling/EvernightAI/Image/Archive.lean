import Mathlib.Algebra.GroupWithZero.Nat
import Mathlib.Data.List.Pairwise
import Mathlib.Data.List.Basic

/-!
# Archiving generated images

`PublicImageArchive` downloads the images of a response that come as URLs. Each hop of a download
checks the URL, resolves its host anew, checks every address of the answer and connects to one of
them. What resolvers and servers answer is the `Network`, a machine with any state of its own.

* `follow_cases` : what one hop does.
* `archive_safe` : what is sent, stored and returned for a whole response.
-/

namespace EvernightAI.ImageArchive

abbrev Bytes := List UInt8

/-! ### Images -/

/-- `mime_type` of an image. -/
inductive Mime
  | png | jpeg | webp
  deriving DecidableEq, Repr

/-- `GeneratedImage` -/
structure GeneratedImage where
  url : Option String
  base64Data : Option String
  mimeType : Option Mime
  revisedPrompt : Option String
  deriving DecidableEq, Repr

/-- `persistence_warning` -/
inductive PersistenceWarning
  | archiveIncomplete | saveFailed | recordDeleted
  deriving DecidableEq, Repr

/-- `ImageGenerationResponse` -/
structure ImageGenerationResponse where
  images : List GeneratedImage
  persistenceWarning : Option PersistenceWarning
  deriving DecidableEq, Repr

/-- `bitmap_mime` -/
def bitmapMime (data : Bytes) : Option Mime :=
  if [0x89, 0x50, 0x4e, 0x47, 0x0d, 0x0a, 0x1a, 0x0a] <+: data then some .png
  else if [0xff, 0xd8, 0xff] <+: data then some .jpeg
  else if data.take 4 = [0x52, 0x49, 0x46, 0x46] ∧
      (data.take 12).drop 8 = [0x57, 0x45, 0x42, 0x50] then some .webp
  else none

/-- A digit of Base64. -/
def base64Digit (n : ℕ) : Char :=
  if n < 26 then Char.ofNat (65 + n)
  else if n < 52 then Char.ofNat (71 + n)
  else if n < 62 then Char.ofNat (n - 4)
  else if n = 62 then '+' else '/'

def base64Digits : Bytes → List Char
  | a :: b :: c :: bytes =>
    base64Digit (a.toNat / 4) :: base64Digit (a.toNat % 4 * 16 + b.toNat / 16) ::
      base64Digit (b.toNat % 16 * 4 + c.toNat / 64) :: base64Digit (c.toNat % 64) ::
        base64Digits bytes
  | [a, b] =>
    [base64Digit (a.toNat / 4), base64Digit (a.toNat % 4 * 16 + b.toNat / 16),
      base64Digit (b.toNat % 16 * 4), '=']
  | [a] => [base64Digit (a.toNat / 4), base64Digit (a.toNat % 4 * 16), '=', '=']
  | [] => []

/-- `base64.b64encode(content).decode("ascii")` -/
def b64encode (content : Bytes) : String := String.ofList (base64Digits content)

example : b64encode [0x4d, 0x61, 0x6e, 0x4d] = "TWFuTQ==" := by decide

/-! ### URLs, addresses and the network -/

/-- What a download reads of an `httpx.URL`; the port is none if it is the one of the scheme. -/
structure Url where
  scheme : String
  username : String
  password : String
  host : String
  port : Option ℕ
  /-- The path, the query and the fragment. -/
  rest : String
  deriving DecidableEq, Repr

/-- `url.copy_with(host=host)` -/
def Url.copyWith (url : Url) (host : String) : Url := { url with host }

/-- `httpx.URL` -/
structure Httpx where
  parse : String → Option Url
  join : Url → String → Option Url
  netloc : Url → String
  rawHost : Url → String

/-- `ipaddress` -/
structure IpAddresses where
  Address : Type
  parse : String → Option Address
  str : Address → String
  version : Address → ℕ
  isGlobal : Address → Bool
  isMulticast : Address → Bool
  /-- The address is in one of `FAKE_IP_NETWORKS`. -/
  isFake : Address → Bool

/-- A request that is sent. -/
structure Request where
  target : Url
  /-- The `Host` header. -/
  host : String
  /-- `sni_hostname` -/
  sniHostname : String
  deriving DecidableEq, Repr

/-- What comes of a request. -/
inductive Reply
  /-- An error of the connection, or the timeout. -/
  | failed
  /-- A response, its body in chunks; a broken body ends in an error or in the timeout. -/
  | response (status : ℕ) (location : Option String) (chunks : List Bytes) (broken : Bool)
  deriving DecidableEq, Repr

/-- Resolvers and servers, with any state. -/
structure Network (σ : Type*) where
  /-- The answer to a host and a port; it may raise, or take too long. -/
  resolve : String → ℕ → σ → Option (List String) × σ
  send : Request → σ → Reply × σ

variable {σ : Type*} (httpx : Httpx) (ip : IpAddresses) (network : Network σ)

/-! ### The resolver -/

/-- What a DNS server answers over HTTPS to a query of one record type. -/
structure DnsAnswer where
  status : ℤ
  answers : List (ℤ × String)
  deriving DecidableEq, Repr

/-- The addresses of one record type in a DNS answer. -/
def recordAddresses (recordType : ℤ) : List (ℤ × String) → Option (List String)
  | [] => some []
  | (type, data) :: answers =>
    if type = recordType then
      (ip.parse data).bind fun address =>
        if ip.version address ≠ (if recordType = 1 then 4 else 6) then none
        else (recordAddresses recordType answers).map (ip.str address :: ·)
    else recordAddresses recordType answers

/-- `_resolve_public_addresses` -/
def resolvePublicAddresses (query : String → ℤ → σ → Option DnsAnswer × σ) (host : String)
    (w : σ) : Option (List String) × σ :=
  let (first, w) := query host 1 w
  match first.bind fun answer =>
      if answer.status ≠ 0 then none else recordAddresses ip 1 answer.answers with
  | none => (none, w)
  | some addresses =>
    let (second, w) := query host 28 w
    (second.bind fun answer =>
      if answer.status ≠ 0 then none
      else (recordAddresses ip 28 answer.answers).map fun more => (addresses ++ more).eraseDups, w)

/-- Whether all addresses are synthesized; the first one that is not ends the check. -/
def allFake : List String → Option Bool
  | [] => some true
  | address :: addresses =>
    (ip.parse address).bind fun found =>
      if ip.isFake found = true then allFake addresses else some false

/-- `resolve_addresses`: a host that is an address is not looked up, and an answer of nothing but
synthesized addresses is replaced by one of a public DNS server. -/
def resolveAddresses (getaddrinfo : String → ℕ → σ → Option (List String) × σ)
    (query : String → ℤ → σ → Option DnsAnswer × σ) (host : String) (port : ℕ) (w : σ) :
    Option (List String) × σ :=
  match ip.parse host with
  | some address => (some [ip.str address], w)
  | none =>
    match getaddrinfo host port w with
    | (none, w) => (none, w)
    | (some answers, w) =>
      match allFake ip answers.eraseDups with
      | none => (none, w)
      | some fake =>
        if answers ≠ [] ∧ fake = true then resolvePublicAddresses ip query host w
        else (some answers.eraseDups, w)

/-- The network with the resolver of the archive. -/
def systemNetwork (getaddrinfo : String → ℕ → σ → Option (List String) × σ)
    (query : String → ℤ → σ → Option DnsAnswer × σ) (send : Request → σ → Reply × σ) :
    Network σ where
  resolve := resolveAddresses ip getaddrinfo query
  send := send

/-! ### A download -/

/-- The check of a URL. -/
def Url.Supported (url : Url) : Prop :=
  (url.scheme = "http" ∨ url.scheme = "https") ∧ url.username = "" ∧ url.password = "" ∧
    (url.port = none ∨ url.port = some 80 ∨ url.port = some 443)

instance (url : Url) : Decidable url.Supported := inferInstanceAs (Decidable (_ ∧ _ ∧ _ ∧ _))

/-- The port to connect to. -/
def Url.portNumber (url : Url) : ℕ :=
  url.port.getD (if url.scheme = "https" then 443 else 80)

/-- The address is global and not multicast. -/
def IsPublic (address : String) : Prop :=
  ∃ found ∈ ip.parse address, ip.isGlobal found = true ∧ ip.isMulticast found = false

instance (address : String) : Decidable (IsPublic ip address) :=
  inferInstanceAs (Decidable (∃ found ∈ ip.parse address, _))

/-- The chunks of a body, as long as they are not too long. -/
def readBody (maxBytes : ℕ) (content : Bytes) : List Bytes → Option Bytes
  | [] => some content
  | chunk :: chunks =>
    if maxBytes < (content ++ chunk).length then none
    else readBody maxBytes (content ++ chunk) chunks

/-- A request that was sent, with the URL of its hop and the answer of the resolver. -/
structure Sent where
  url : Url
  answer : List String
  request : Request
  deriving DecidableEq, Repr

/-- What a download returns and what it has sent. -/
structure Download (σ : Type*) where
  content : Option Bytes
  sent : List Sent
  world : σ

/-- The request of a hop. -/
def requestTo (url : Url) (address : String) : Request where
  target := url.copyWith address
  host := httpx.netloc url
  sniHostname := httpx.rawHost url

/-- The hops of `_download` that are left. -/
def follow (maxBytes : ℕ) : ℕ → Url → σ → Download σ
  | 0, _, w => { content := none, sent := [], world := w }
  | hops + 1, url, w =>
    if ¬url.Supported then { content := none, sent := [], world := w }
    else
      match network.resolve url.host url.portNumber w with
      | (none, w) => { content := none, sent := [], world := w }
      | (some [], w) => { content := none, sent := [], world := w }
      | (some (address :: more), w) =>
        if ¬∀ a ∈ address :: more, IsPublic ip a then { content := none, sent := [], world := w }
        else
          let sent : Sent :=
            { url, answer := address :: more, request := requestTo httpx url address }
          match network.send sent.request w with
          | (.failed, w) => { content := none, sent := [sent], world := w }
          | (.response status location chunks broken, w) =>
            if 300 ≤ status ∧ status ≤ 399 then
              match location.bind (httpx.join url) with
              | none => { content := none, sent := [sent], world := w }
              | some next =>
                if url.scheme = "https" ∧ next.scheme ≠ "https" then
                  { content := none, sent := [sent], world := w }
                else
                  let download := follow maxBytes hops next w
                  { download with sent := sent :: download.sent }
            else if ¬(200 ≤ status ∧ status ≤ 299) ∨ broken = true then
              { content := none, sent := [sent], world := w }
            else { content := readBody maxBytes [] chunks, sent := [sent], world := w }

/-- `_download` -/
def download (maxBytes : ℕ) (source : String) (w : σ) : Download σ :=
  match httpx.parse source with
  | none => { content := none, sent := [], world := w }
  | some url => follow httpx ip network maxBytes 4 url w

/-! ### A response -/

/-- What becomes of an image: what is returned in its place, what was sent for it, and what was
stored. -/
structure Archived where
  image : GeneratedImage
  sent : List Sent
  stored : Option Bytes
  deriving DecidableEq, Repr

/-- The limits of the archive. -/
structure Limits where
  maxBytes : ℕ := 20000000
  totalBytes : ℕ := 50000000

/-- The loop of `archive`, with the bytes that remain. -/
def archiveImages (limits : Limits) : List GeneratedImage → ℕ → σ → List Archived
  | [], _, _ => []
  | image :: images, remaining, w =>
    if image.base64Data.isSome then
      { image, sent := [], stored := none } :: archiveImages limits images remaining w
    else
      let result := download httpx ip network (min limits.maxBytes remaining)
        (image.url.getD "None") w
      match result.content.bind fun content => (bitmapMime content).map (content, ·) with
      | none =>
        { image, sent := result.sent, stored := none } ::
          archiveImages limits images remaining result.world
      | some (content, mime) =>
        { image := { image with base64Data := some (b64encode content), mimeType := some mime }
          sent := result.sent
          stored := some content } ::
          archiveImages limits images (remaining - content.length) result.world

/-- `not image.base64_data` -/
def GeneratedImage.missing (image : GeneratedImage) : Bool := (image.base64Data.getD "") = ""

/-- `archive` -/
def archive (limits : Limits) (response : ImageGenerationResponse) (w : σ) :
    ImageGenerationResponse :=
  let images := (archiveImages httpx ip network limits response.images limits.totalBytes w).map
    Archived.image
  { images
    persistenceWarning :=
      if images.any GeneratedImage.missing then some .archiveIncomplete else none }

/-! ### What a download sends -/

/-- A request that may be sent: to an HTTP URL without credentials on a usual port, at an address
from an answer of the resolver with nothing but public addresses. -/
structure Sent.Safe (ip : IpAddresses) (network : Network σ) (sent : Sent) : Prop where
  supported : sent.request.target.Supported
  answer : ∃ w, (network.resolve sent.url.host sent.url.portNumber w).1 = some sent.answer
  address : sent.request.target.host ∈ sent.answer
  isPublic : ∀ address ∈ sent.answer, IsPublic ip address

theorem length_readBody {maxBytes : ℕ} {content found : Bytes} {chunks : List Bytes}
    (hcontent : content.length ≤ maxBytes) (h : readBody maxBytes content chunks = some found) :
    found.length ≤ maxBytes := by
  induction chunks generalizing content with
  | nil => exact Option.some.inj h ▸ hcontent
  | cons chunk chunks ih =>
    unfold readBody at h
    split_ifs at h with hlong
    exact ih (Nat.le_of_not_lt hlong) h

/-- What one hop does: it fails before anything is sent, its request is the last one, or it is
redirected without leaving HTTPS for HTTP. -/
theorem follow_cases (maxBytes hops : ℕ) (url : Url) (w : σ) :
    (∃ w', follow httpx ip network maxBytes (hops + 1) url w =
        { content := none, sent := [], world := w' }) ∨
      ∃ sent, sent.Safe ip network ∧ sent.url = url ∧
        ((∃ content w', (∀ found ∈ content, found.length ≤ maxBytes) ∧
            follow httpx ip network maxBytes (hops + 1) url w =
              { content, sent := [sent], world := w' }) ∨
          ∃ next w', ¬(url.scheme = "https" ∧ next.scheme ≠ "https") ∧
            follow httpx ip network maxBytes (hops + 1) url w =
              { follow httpx ip network maxBytes hops next w' with
                sent := sent :: (follow httpx ip network maxBytes hops next w').sent }) := by
  rw [follow]
  by_cases hsupported : url.Supported
  swap
  · rw [if_pos hsupported]
    exact .inl ⟨w, rfl⟩
  rw [if_neg (not_not.mpr hsupported)]
  split
  · exact .inl ⟨_, rfl⟩
  · exact .inl ⟨_, rfl⟩
  · rename_i address more w' hresolve
    by_cases hpublic : ∀ a ∈ address :: more, IsPublic ip a
    swap
    · rw [if_pos hpublic]
      exact .inl ⟨w', rfl⟩
    rw [if_neg (not_not.mpr hpublic)]
    refine .inr ⟨{ url, answer := address :: more, request := requestTo httpx url address },
      ⟨hsupported, ⟨w, by rw [hresolve]⟩, List.mem_cons_self, hpublic⟩, rfl, ?_⟩
    dsimp only
    have hnone : ∀ found ∈ (none : Option Bytes), found.length ≤ maxBytes := by
      intro found hfound
      cases hfound
    split
    · exact .inl ⟨none, _, hnone, rfl⟩
    · rename_i status location chunks broken w'' hsend
      split_ifs with hredirect hstatus
      · split
        · exact .inl ⟨none, _, hnone, rfl⟩
        · rename_i next hnext
          by_cases hdowngrade : url.scheme = "https" ∧ next.scheme ≠ "https"
          · rw [if_pos hdowngrade]
            exact .inl ⟨none, _, hnone, rfl⟩
          · rw [if_neg hdowngrade]
            exact .inr ⟨next, w'', hdowngrade, rfl⟩
      · exact .inl ⟨none, _, hnone, rfl⟩
      · exact .inl ⟨_, _, fun found hfound => length_readBody (Nat.zero_le _) hfound, rfl⟩

/-- A download stays within HTTPS once it is there. -/
def KeepsHttps (sent : List Sent) : Prop :=
  sent.Pairwise fun earlier later => earlier.url.scheme = "https" → later.url.scheme = "https"

/-- What a download sends and returns. -/
structure Download.Safe (ip : IpAddresses) (network : Network σ) (maxBytes hops : ℕ)
    (download : Download σ) : Prop where
  count : download.sent.length ≤ hops
  sent : ∀ sent ∈ download.sent, sent.Safe ip network
  https : KeepsHttps download.sent
  content : ∀ content ∈ download.content, content.length ≤ maxBytes

theorem Download.safe_empty (ip : IpAddresses) (network : Network σ) (maxBytes hops : ℕ) (w : σ) :
    Download.Safe ip network maxBytes hops { content := none, sent := [], world := w } where
  count := Nat.zero_le _
  sent sent h := absurd h List.not_mem_nil
  https := List.Pairwise.nil
  content content h := by cases h

/-- **A download is safe**, from any URL; from an HTTPS URL all requests are HTTPS ones. -/
theorem follow_safe (maxBytes hops : ℕ) (url : Url) (w : σ) :
    (follow httpx ip network maxBytes hops url w).Safe ip network maxBytes hops ∧
      (url.scheme = "https" → ∀ sent ∈ (follow httpx ip network maxBytes hops url w).sent,
        sent.url.scheme = "https") := by
  induction hops generalizing url w with
  | zero =>
    exact ⟨Download.safe_empty ip network maxBytes 0 w, fun _ _ h => absurd h List.not_mem_nil⟩
  | succ hops ih =>
    obtain ⟨w', heq⟩ | ⟨sent, hsafe, hurl, ⟨content, w', hcontent, heq⟩ | ⟨next, w', hkept, heq⟩⟩ :=
      follow_cases httpx ip network maxBytes hops url w
    · rw [heq]
      exact ⟨Download.safe_empty ip network maxBytes _ w', fun _ _ h => absurd h List.not_mem_nil⟩
    · rw [heq]
      refine ⟨⟨?_, ?_, List.pairwise_singleton _ _, hcontent⟩, ?_⟩
      · rw [List.length_singleton]
        omega
      · intro other hother
        exact List.mem_singleton.mp hother ▸ hsafe
      · intro hhttps other hother
        rw [List.mem_singleton.mp hother, hurl]
        exact hhttps
    · obtain ⟨hrest, hrestHttps⟩ := ih next w'
      have hnext : url.scheme = "https" → next.scheme = "https" := fun hhttps =>
        not_not.mp fun hne => hkept ⟨hhttps, hne⟩
      rw [heq]
      refine ⟨⟨?_, ?_, ?_, hrest.content⟩, ?_⟩
      · have hcount := hrest.count
        rw [List.length_cons]
        omega
      · intro other hother
        rcases List.mem_cons.mp hother with rfl | hother
        · exact hsafe
        · exact hrest.sent other hother
      · refine List.Pairwise.cons (fun later hlater hhttps => ?_) hrest.https
        rw [hurl] at hhttps
        exact hrestHttps (hnext hhttps) later hlater
      · intro hhttps other hother
        rcases List.mem_cons.mp hother with rfl | hother
        · rw [hurl]
          exact hhttps
        · exact hrestHttps (hnext hhttps) other hother

theorem download_safe (maxBytes : ℕ) (source : String) (w : σ) :
    (download httpx ip network maxBytes source w).Safe ip network maxBytes 4 := by
  unfold download
  split
  · exact Download.safe_empty ip network maxBytes 4 w
  · exact (follow_safe httpx ip network maxBytes 4 _ w).1

/-! ### What a response archives -/

/-- The bytes that were stored for an image. -/
def Archived.size (archived : Archived) : ℕ := archived.stored.elim 0 List.length

/-- What becomes of an image. -/
structure Archived.Safe (ip : IpAddresses) (network : Network σ) (limits : Limits)
    (image : GeneratedImage) (archived : Archived) : Prop where
  count : archived.sent.length ≤ 4
  sent : ∀ sent ∈ archived.sent, sent.Safe ip network
  https : KeepsHttps archived.sent
  size : archived.size ≤ limits.maxBytes
  /-- An image with its data is left alone. -/
  kept : image.base64Data.isSome = true → archived.sent = [] ∧ archived.stored = none
  /-- What is not stored leaves the image as it is; else its data is what was stored. -/
  image : archived.image = archived.stored.elim image fun content =>
    { image with base64Data := some (b64encode content), mimeType := bitmapMime content }

/-- One image: what becomes of it, and what remains for the others. -/
theorem archiveImages_cons (limits : Limits) (image : GeneratedImage) (images : List GeneratedImage)
    (remaining : ℕ) (w : σ) :
    ∃ archived w', archiveImages httpx ip network limits (image :: images) remaining w =
        archived ::
          archiveImages httpx ip network limits images (remaining - archived.size) w' ∧
      archived.Safe ip network limits image ∧ archived.size ≤ remaining := by
  rw [archiveImages]
  split_ifs with hdata
  · refine ⟨{ image, sent := [], stored := none }, w, rfl, ⟨Nat.zero_le _, ?_, List.Pairwise.nil,
      Nat.zero_le _, fun _ => ⟨rfl, rfl⟩, rfl⟩, Nat.zero_le _⟩
    intro sent hsent
    exact absurd hsent List.not_mem_nil
  · have hsafe := download_safe httpx ip network
      (min limits.maxBytes remaining) (image.url.getD "None") w
    obtain ⟨result, hresult⟩ : ∃ result, download httpx ip network
        (min limits.maxBytes remaining) (image.url.getD "None") w = result := ⟨_, rfl⟩
    rw [hresult] at hsafe ⊢
    dsimp only
    split
    · exact ⟨{ image, sent := result.sent, stored := none }, result.world, rfl,
        ⟨hsafe.count, hsafe.sent, hsafe.https, Nat.zero_le _, fun h => absurd h hdata, rfl⟩,
        Nat.zero_le _⟩
    · rename_i content mime hcontent
      obtain ⟨found, hfound, hmime⟩ := Option.bind_eq_some_iff.mp hcontent
      obtain ⟨kind, hkind, hpair⟩ := Option.map_eq_some_iff.mp hmime
      obtain ⟨rfl, rfl⟩ := Prod.mk.inj hpair
      have hlength := hsafe.content found hfound
      refine ⟨{
          image := { image with base64Data := some (b64encode found), mimeType := some kind }
          sent := result.sent
          stored := some found }, result.world, rfl,
        ⟨hsafe.count, hsafe.sent, hsafe.https, ?_, fun h => absurd h hdata, ?_⟩, ?_⟩
      · exact Nat.le_trans hlength (Nat.min_le_left _ _)
      · rw [Option.elim_some, hkind]
      · exact Nat.le_trans hlength (Nat.min_le_right _ _)

/-- The images of a response, each with what becomes of it. -/
theorem archiveImages_safe (limits : Limits) (images : List GeneratedImage) (remaining : ℕ)
    (w : σ) :
    List.Forall₂ (Archived.Safe ip network limits) images
        (archiveImages httpx ip network limits images remaining w) ∧
      ((archiveImages httpx ip network limits images remaining w).map Archived.size).sum ≤
        remaining := by
  induction images generalizing remaining w with
  | nil => exact ⟨.nil, Nat.zero_le _⟩
  | cons image images ih =>
    obtain ⟨archived, w', heq, hsafe, hsize⟩ :=
      archiveImages_cons httpx ip network limits image images remaining w
    obtain ⟨hrest, hsum⟩ := ih (remaining - archived.size) w'
    rw [heq, List.map_cons, List.sum_cons]
    exact ⟨.cons hsafe hrest, by omega⟩

/-- **Archiving a response is safe**: whatever resolvers and servers answer, every request may be
sent, the bytes stored keep both limits, and every image is at its place, as it was if it had its
data or nothing was stored for it. -/
theorem archive_safe {σ : Type*} (httpx : Httpx) (ip : IpAddresses) (network : Network σ)
    (limits : Limits) (response : ImageGenerationResponse) (w : σ) :
    ∃ archived, List.Forall₂ (Archived.Safe ip network limits) response.images archived ∧
      (archived.map Archived.size).sum ≤ limits.totalBytes ∧
      archived = archiveImages httpx ip network limits response.images limits.totalBytes w ∧
      (archive httpx ip network limits response w).images = archived.map Archived.image := by
  obtain ⟨hsafe, hsum⟩ := archiveImages_safe httpx ip network
    limits response.images limits.totalBytes w
  exact ⟨_, hsafe, hsum, rfl, rfl⟩

end EvernightAI.ImageArchive
