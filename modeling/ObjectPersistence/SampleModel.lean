import ObjectPersistence.Schema.Class

/-! # The sample model

A small library domain that uses every kind of field: authors and their books as the two
sides of one relation, a book's dependent list of chapters persisted with it, chapters
pointing back to their book, a library's books persisted with it, its shelves as dependent
values of a map, versioning, and fields whose values are generated. A ticket's stamp is
generated as an integer but declared boolean, so it never converts. -/

namespace ObjectPersistence.SampleModel

def author : ClassMeta :=
  ClassMeta.ofFields "Author" false
    [(FieldMeta.scalar "name" .text).withNotNull,
     (FieldMeta.collectionOf "books" .set "Book").withMappedBy 1]

/-- A book: title, author, chapters it owns, tags, ratings by reader, date printed. -/
def book : ClassMeta :=
  ClassMeta.ofFields "Book" false
    [FieldMeta.scalar "title" .text,
     (FieldMeta.reference "author" "Author").withMappedBy 1,
     (FieldMeta.collectionOf "chapters" .list "Chapter").withCascadePersist.withDependent,
     (FieldMeta.collection "tags" .set .text).withNotNull,
     FieldMeta.map "ratings" .sortedMap,
     FieldMeta.mutableScalar "printed" .timestamp]

def chapter : ClassMeta :=
  ClassMeta.ofFields "Chapter" false
    [FieldMeta.scalar "heading" .text,
     FieldMeta.scalar "pages" .integer,
     (FieldMeta.reference "book" "Book").withCascadePersist]

/-- A versioned library: its books and shelves, and three generated identifiers. -/
def library : ClassMeta :=
  ClassMeta.ofFields "Library" true
    [FieldMeta.scalar "name" .text,
     (FieldMeta.collectionOf "books" .set "Book").withCascadePersist,
     ((FieldMeta.map "shelves" .map).withRefValues "Shelf").withCascadePersist.withDependent,
     (FieldMeta.scalar "code" .integer).withGenerated .increment,
     (FieldMeta.scalar "catalog" .text).withGenerated (.sequence "catalog"),
     (FieldMeta.scalar "uid" .text).withGenerated .uuid,
     (FieldMeta.reference "featured" "Book").withCascadePersist]

def shelf : ClassMeta := ClassMeta.ofFields "Shelf" false [FieldMeta.scalar "label" .text]

def ticket : ClassMeta :=
  ClassMeta.ofFields "Ticket" false [(FieldMeta.scalar "stamped" .boolean).withGenerated .increment]

def schema : Schema := ⟨[author, book, chapter, library, shelf, ticket]⟩

end ObjectPersistence.SampleModel
