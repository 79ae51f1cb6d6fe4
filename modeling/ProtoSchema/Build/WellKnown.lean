/-!
The well-known type schema files, embedded so that an import of one of them
resolves even when no root holds a copy. A root that does hold the file
still wins. Each text is kept as its list of lines.

Main definitions: `WellKnown.files` and `WellKnown.source?`.
-/

namespace ProtoSchema

namespace WellKnown

def anyLines : List String := [
  "syntax = \"proto3\";",
  "",
  "package google.protobuf;",
  "",
  "option csharp_namespace = \"Google.Protobuf.WellKnownTypes\";",
  "option go_package = \"google.golang.org/protobuf/types/known/anypb\";",
  "option java_package = \"com.google.protobuf\";",
  "option java_outer_classname = \"AnyProto\";",
  "option java_multiple_files = true;",
  "option objc_class_prefix = \"GPB\";",
  "",
  "// \x60Any\x60 contains an arbitrary serialized protocol buffer message along with a",
  "// URL that describes the type of the serialized message.",
  "message Any \x7b",
  "  // A URL/resource name that uniquely identifies the type of the serialized",
  "  // protocol buffer message.",
  "  string type_url = 1;",
  "",
  "  // Must be a valid serialized protocol buffer of the above specified type.",
  "  bytes value = 2;",
  "\x7d",
  ""]

def apiLines : List String := [
  "syntax = \"proto3\";",
  "",
  "package google.protobuf;",
  "",
  "import \"google/protobuf/source_context.proto\";",
  "import \"google/protobuf/type.proto\";",
  "",
  "option csharp_namespace = \"Google.Protobuf.WellKnownTypes\";",
  "option java_package = \"com.google.protobuf\";",
  "option java_outer_classname = \"ApiProto\";",
  "option java_multiple_files = true;",
  "option objc_class_prefix = \"GPB\";",
  "option go_package = \"google.golang.org/protobuf/types/known/apipb\";",
  "",
  "// Api is a light-weight descriptor for an API Interface.",
  "message Api \x7b",
  "  string name = 1;",
  "  repeated Method methods = 2;",
  "  repeated Option options = 3;",
  "  string version = 4;",
  "  SourceContext source_context = 5;",
  "  repeated Mixin mixins = 6;",
  "  Syntax syntax = 7;",
  "\x7d",
  "",
  "// Method represents a method of an API interface.",
  "message Method \x7b",
  "  string name = 1;",
  "  string request_type_url = 2;",
  "  bool request_streaming = 3;",
  "  string response_type_url = 4;",
  "  bool response_streaming = 5;",
  "  repeated Option options = 6;",
  "  Syntax syntax = 7;",
  "\x7d",
  "",
  "// Declares an API Interface to be included in this interface.",
  "message Mixin \x7b",
  "  string name = 1;",
  "  string root = 2;",
  "\x7d",
  ""]

def descriptorLines : List String := [
  "// The messages in this file describe the definitions found in .proto files.",
  "// A valid .proto file can be translated directly to a FileDescriptorProto",
  "// without any other information (e.g. without reading its imports).",
  "",
  "syntax = \"proto2\";",
  "",
  "package google.protobuf;",
  "",
  "option go_package = \"google.golang.org/protobuf/types/descriptorpb\";",
  "option java_package = \"com.google.protobuf\";",
  "option java_outer_classname = \"DescriptorProtos\";",
  "option csharp_namespace = \"Google.Protobuf.Reflection\";",
  "option objc_class_prefix = \"GPB\";",
  "option cc_enable_arenas = true;",
  "",
  "// descriptor.proto must be optimized for speed because reflection-based",
  "// algorithms don\x27t work during bootstrapping.",
  "option optimize_for = SPEED;",
  "",
  "// The protocol compiler can output a FileDescriptorSet containing the .proto",
  "// files it parses.",
  "message FileDescriptorSet \x7b",
  "  repeated FileDescriptorProto file = 1;",
  "\x7d",
  "",
  "// Describes a complete .proto file.",
  "message FileDescriptorProto \x7b",
  "  optional string name = 1;",
  "  optional string package = 2;",
  "",
  "  repeated string dependency = 3;",
  "  repeated int32 public_dependency = 10;",
  "  repeated int32 weak_dependency = 11;",
  "",
  "  repeated DescriptorProto message_type = 4;",
  "  repeated EnumDescriptorProto enum_type = 5;",
  "  repeated ServiceDescriptorProto service = 6;",
  "  repeated FieldDescriptorProto extension = 7;",
  "",
  "  optional FileOptions options = 8;",
  "",
  "  optional SourceCodeInfo source_code_info = 9;",
  "",
  "  optional string syntax = 12;",
  "\x7d",
  "",
  "// Describes a message type.",
  "message DescriptorProto \x7b",
  "  optional string name = 1;",
  "",
  "  repeated FieldDescriptorProto field = 2;",
  "  repeated FieldDescriptorProto extension = 6;",
  "",
  "  repeated DescriptorProto nested_type = 3;",
  "  repeated EnumDescriptorProto enum_type = 4;",
  "",
  "  message ExtensionRange \x7b",
  "    optional int32 start = 1;  // Inclusive.",
  "    optional int32 end = 2;    // Exclusive.",
  "",
  "    optional ExtensionRangeOptions options = 3;",
  "  \x7d",
  "  repeated ExtensionRange extension_range = 5;",
  "",
  "  repeated OneofDescriptorProto oneof_decl = 8;",
  "",
  "  optional MessageOptions options = 7;",
  "",
  "  // Range of reserved tag numbers.",
  "  message ReservedRange \x7b",
  "    optional int32 start = 1;  // Inclusive.",
  "    optional int32 end = 2;    // Exclusive.",
  "  \x7d",
  "  repeated ReservedRange reserved_range = 9;",
  "  repeated string reserved_name = 10;",
  "\x7d",
  "",
  "message ExtensionRangeOptions \x7b",
  "  // The parser stores options it doesn\x27t recognize here. See above.",
  "  repeated UninterpretedOption uninterpreted_option = 999;",
  "",
  "  extensions 1000 to max;",
  "\x7d",
  "",
  "// Describes a field within a message.",
  "message FieldDescriptorProto \x7b",
  "  enum Type \x7b",
  "    TYPE_DOUBLE = 1;",
  "    TYPE_FLOAT = 2;",
  "    TYPE_INT64 = 3;",
  "    TYPE_UINT64 = 4;",
  "    TYPE_INT32 = 5;",
  "    TYPE_FIXED64 = 6;",
  "    TYPE_FIXED32 = 7;",
  "    TYPE_BOOL = 8;",
  "    TYPE_STRING = 9;",
  "    TYPE_GROUP = 10;",
  "    TYPE_MESSAGE = 11;",
  "    TYPE_BYTES = 12;",
  "    TYPE_UINT32 = 13;",
  "    TYPE_ENUM = 14;",
  "    TYPE_SFIXED32 = 15;",
  "    TYPE_SFIXED64 = 16;",
  "    TYPE_SINT32 = 17;",
  "    TYPE_SINT64 = 18;",
  "  \x7d",
  "",
  "  enum Label \x7b",
  "    LABEL_OPTIONAL = 1;",
  "    LABEL_REQUIRED = 2;",
  "    LABEL_REPEATED = 3;",
  "  \x7d",
  "",
  "  optional string name = 1;",
  "  optional int32 number = 3;",
  "  optional Label label = 4;",
  "",
  "  optional Type type = 5;",
  "",
  "  optional string type_name = 6;",
  "",
  "  optional string extendee = 2;",
  "",
  "  optional string default_value = 7;",
  "",
  "  optional int32 oneof_index = 9;",
  "",
  "  optional string json_name = 10;",
  "",
  "  optional FieldOptions options = 8;",
  "",
  "  optional bool proto3_optional = 17;",
  "\x7d",
  "",
  "// Describes a oneof.",
  "message OneofDescriptorProto \x7b",
  "  optional string name = 1;",
  "  optional OneofOptions options = 2;",
  "\x7d",
  "",
  "// Describes an enum type.",
  "message EnumDescriptorProto \x7b",
  "  optional string name = 1;",
  "",
  "  repeated EnumValueDescriptorProto value = 2;",
  "",
  "  optional EnumOptions options = 3;",
  "",
  "  // Range of reserved numeric values. Note that this is distinct from",
  "  // DescriptorProto.ReservedRange in that it is inclusive.",
  "  message EnumReservedRange \x7b",
  "    optional int32 start = 1;  // Inclusive.",
  "    optional int32 end = 2;    // Inclusive.",
  "  \x7d",
  "",
  "  repeated EnumReservedRange reserved_range = 4;",
  "",
  "  repeated string reserved_name = 5;",
  "\x7d",
  "",
  "// Describes a value within an enum.",
  "message EnumValueDescriptorProto \x7b",
  "  optional string name = 1;",
  "  optional int32 number = 2;",
  "",
  "  optional EnumValueOptions options = 3;",
  "\x7d",
  "",
  "// Describes a service.",
  "message ServiceDescriptorProto \x7b",
  "  optional string name = 1;",
  "  repeated MethodDescriptorProto method = 2;",
  "",
  "  optional ServiceOptions options = 3;",
  "\x7d",
  "",
  "// Describes a method of a service.",
  "message MethodDescriptorProto \x7b",
  "  optional string name = 1;",
  "",
  "  optional string input_type = 2;",
  "  optional string output_type = 3;",
  "",
  "  optional MethodOptions options = 4;",
  "",
  "  optional bool client_streaming = 5 [default = false];",
  "  optional bool server_streaming = 6 [default = false];",
  "\x7d",
  "",
  "message FileOptions \x7b",
  "  optional string java_package = 1;",
  "",
  "  optional string java_outer_classname = 8;",
  "",
  "  optional bool java_multiple_files = 10 [default = false];",
  "",
  "  optional bool java_generate_equals_and_hash = 20 [deprecated=true];",
  "",
  "  optional bool java_string_check_utf8 = 27 [default = false];",
  "",
  "  enum OptimizeMode \x7b",
  "    SPEED = 1;",
  "    CODE_SIZE = 2;",
  "    LITE_RUNTIME = 3;",
  "  \x7d",
  "  optional OptimizeMode optimize_for = 9 [default = SPEED];",
  "",
  "  optional string go_package = 11;",
  "",
  "  optional bool cc_generic_services = 16 [default = false];",
  "  optional bool java_generic_services = 17 [default = false];",
  "  optional bool py_generic_services = 18 [default = false];",
  "  optional bool php_generic_services = 42 [default = false];",
  "",
  "  optional bool deprecated = 23 [default = false];",
  "",
  "  optional bool cc_enable_arenas = 31 [default = true];",
  "",
  "  optional string objc_class_prefix = 36;",
  "",
  "  optional string csharp_namespace = 37;",
  "",
  "  optional string swift_prefix = 39;",
  "",
  "  optional string php_class_prefix = 40;",
  "",
  "  optional string php_namespace = 41;",
  "",
  "  optional string php_metadata_namespace = 44;",
  "",
  "  optional string ruby_package = 45;",
  "",
  "  repeated UninterpretedOption uninterpreted_option = 999;",
  "",
  "  extensions 1000 to max;",
  "",
  "  reserved 38;",
  "\x7d",
  "",
  "message MessageOptions \x7b",
  "  optional bool message_set_wire_format = 1 [default = false];",
  "",
  "  optional bool no_standard_descriptor_accessor = 2 [default = false];",
  "",
  "  optional bool deprecated = 3 [default = false];",
  "",
  "  reserved 4, 5, 6;",
  "",
  "  optional bool map_entry = 7;",
  "",
  "  reserved 8;",
  "  reserved 9;",
  "",
  "  repeated UninterpretedOption uninterpreted_option = 999;",
  "",
  "  extensions 1000 to max;",
  "\x7d",
  "",
  "message FieldOptions \x7b",
  "  optional CType ctype = 1 [default = STRING];",
  "  enum CType \x7b",
  "    STRING = 0;",
  "    CORD = 1;",
  "    STRING_PIECE = 2;",
  "  \x7d",
  "",
  "  optional bool packed = 2;",
  "",
  "  optional JSType jstype = 6 [default = JS_NORMAL];",
  "  enum JSType \x7b",
  "    JS_NORMAL = 0;",
  "    JS_STRING = 1;",
  "    JS_NUMBER = 2;",
  "  \x7d",
  "",
  "  optional bool lazy = 5 [default = false];",
  "",
  "  optional bool unverified_lazy = 15 [default = false];",
  "",
  "  optional bool deprecated = 3 [default = false];",
  "",
  "  optional bool weak = 10 [default = false];",
  "",
  "  repeated UninterpretedOption uninterpreted_option = 999;",
  "",
  "  extensions 1000 to max;",
  "",
  "  reserved 4;",
  "\x7d",
  "",
  "message OneofOptions \x7b",
  "  repeated UninterpretedOption uninterpreted_option = 999;",
  "",
  "  extensions 1000 to max;",
  "\x7d",
  "",
  "message EnumOptions \x7b",
  "  optional bool allow_alias = 2;",
  "",
  "  optional bool deprecated = 3 [default = false];",
  "",
  "  reserved 5;",
  "",
  "  repeated UninterpretedOption uninterpreted_option = 999;",
  "",
  "  extensions 1000 to max;",
  "\x7d",
  "",
  "message EnumValueOptions \x7b",
  "  optional bool deprecated = 1 [default = false];",
  "",
  "  repeated UninterpretedOption uninterpreted_option = 999;",
  "",
  "  extensions 1000 to max;",
  "\x7d",
  "",
  "message ServiceOptions \x7b",
  "  optional bool deprecated = 33 [default = false];",
  "",
  "  repeated UninterpretedOption uninterpreted_option = 999;",
  "",
  "  extensions 1000 to max;",
  "\x7d",
  "",
  "message MethodOptions \x7b",
  "  optional bool deprecated = 33 [default = false];",
  "",
  "  enum IdempotencyLevel \x7b",
  "    IDEMPOTENCY_UNKNOWN = 0;",
  "    NO_SIDE_EFFECTS = 1;",
  "    IDEMPOTENT = 2;",
  "  \x7d",
  "  optional IdempotencyLevel idempotency_level = 34",
  "      [default = IDEMPOTENCY_UNKNOWN];",
  "",
  "  repeated UninterpretedOption uninterpreted_option = 999;",
  "",
  "  extensions 1000 to max;",
  "\x7d",
  "",
  "// A message representing a option the parser does not recognize.",
  "message UninterpretedOption \x7b",
  "  message NamePart \x7b",
  "    required string name_part = 1;",
  "    required bool is_extension = 2;",
  "  \x7d",
  "  repeated NamePart name = 2;",
  "",
  "  optional string identifier_value = 3;",
  "  optional uint64 positive_int_value = 4;",
  "  optional int64 negative_int_value = 5;",
  "  optional double double_value = 6;",
  "  optional bytes string_value = 7;",
  "  optional string aggregate_value = 8;",
  "\x7d",
  "",
  "// Encapsulates information about the original source file from which a",
  "// FileDescriptorProto was generated.",
  "message SourceCodeInfo \x7b",
  "  repeated Location location = 1;",
  "  message Location \x7b",
  "    repeated int32 path = 1 [packed = true];",
  "",
  "    repeated int32 span = 2 [packed = true];",
  "",
  "    optional string leading_comments = 3;",
  "    optional string trailing_comments = 4;",
  "    repeated string leading_detached_comments = 6;",
  "  \x7d",
  "\x7d",
  "",
  "// Describes the relationship between generated code and its original source",
  "// file.",
  "message GeneratedCodeInfo \x7b",
  "  repeated Annotation annotation = 1;",
  "  message Annotation \x7b",
  "    repeated int32 path = 1 [packed = true];",
  "",
  "    optional string source_file = 2;",
  "",
  "    optional int32 begin = 3;",
  "",
  "    optional int32 end = 4;",
  "  \x7d",
  "\x7d",
  ""]

def durationLines : List String := [
  "syntax = \"proto3\";",
  "",
  "package google.protobuf;",
  "",
  "option csharp_namespace = \"Google.Protobuf.WellKnownTypes\";",
  "option cc_enable_arenas = true;",
  "option go_package = \"google.golang.org/protobuf/types/known/durationpb\";",
  "option java_package = \"com.google.protobuf\";",
  "option java_outer_classname = \"DurationProto\";",
  "option java_multiple_files = true;",
  "option objc_class_prefix = \"GPB\";",
  "",
  "// A Duration represents a signed, fixed-length span of time represented",
  "// as a count of seconds and fractions of seconds at nanosecond resolution.",
  "message Duration \x7b",
  "  // Signed seconds of the span of time.",
  "  int64 seconds = 1;",
  "",
  "  // Signed fractions of a second at nanosecond resolution of the span",
  "  // of time.",
  "  int32 nanos = 2;",
  "\x7d",
  ""]

def emptyLines : List String := [
  "syntax = \"proto3\";",
  "",
  "package google.protobuf;",
  "",
  "option csharp_namespace = \"Google.Protobuf.WellKnownTypes\";",
  "option go_package = \"google.golang.org/protobuf/types/known/emptypb\";",
  "option java_package = \"com.google.protobuf\";",
  "option java_outer_classname = \"EmptyProto\";",
  "option java_multiple_files = true;",
  "option objc_class_prefix = \"GPB\";",
  "option cc_enable_arenas = true;",
  "",
  "// A generic empty message that you can re-use to avoid defining duplicated",
  "// empty messages in your APIs.",
  "message Empty \x7b\x7d",
  ""]

def fieldMaskLines : List String := [
  "syntax = \"proto3\";",
  "",
  "package google.protobuf;",
  "",
  "option csharp_namespace = \"Google.Protobuf.WellKnownTypes\";",
  "option java_package = \"com.google.protobuf\";",
  "option java_outer_classname = \"FieldMaskProto\";",
  "option java_multiple_files = true;",
  "option objc_class_prefix = \"GPB\";",
  "option go_package = \"google.golang.org/protobuf/types/known/fieldmaskpb\";",
  "option cc_enable_arenas = true;",
  "",
  "// \x60FieldMask\x60 represents a set of symbolic field paths.",
  "message FieldMask \x7b",
  "  // The set of field mask paths.",
  "  repeated string paths = 1;",
  "\x7d",
  ""]

def sourceContextLines : List String := [
  "syntax = \"proto3\";",
  "",
  "package google.protobuf;",
  "",
  "option csharp_namespace = \"Google.Protobuf.WellKnownTypes\";",
  "option java_package = \"com.google.protobuf\";",
  "option java_outer_classname = \"SourceContextProto\";",
  "option java_multiple_files = true;",
  "option objc_class_prefix = \"GPB\";",
  "option go_package = \"google.golang.org/protobuf/types/known/sourcecontextpb\";",
  "",
  "// \x60SourceContext\x60 represents information about the source of a",
  "// protobuf element, like the file in which it is defined.",
  "message SourceContext \x7b",
  "  // The path-qualified name of the .proto file that contained the associated",
  "  // protobuf element.",
  "  string file_name = 1;",
  "\x7d",
  ""]

def structLines : List String := [
  "syntax = \"proto3\";",
  "",
  "package google.protobuf;",
  "",
  "option csharp_namespace = \"Google.Protobuf.WellKnownTypes\";",
  "option cc_enable_arenas = true;",
  "option go_package = \"google.golang.org/protobuf/types/known/structpb\";",
  "option java_package = \"com.google.protobuf\";",
  "option java_outer_classname = \"StructProto\";",
  "option java_multiple_files = true;",
  "option objc_class_prefix = \"GPB\";",
  "",
  "// \x60Struct\x60 represents a structured data value, consisting of fields",
  "// which map to dynamically typed values.",
  "message Struct \x7b",
  "  // Unordered map of dynamically typed values.",
  "  map<string, Value> fields = 1;",
  "\x7d",
  "",
  "// \x60Value\x60 represents a dynamically typed value which can be either",
  "// null, a number, a string, a boolean, a recursive struct value, or a",
  "// list of values.",
  "message Value \x7b",
  "  // The kind of value.",
  "  oneof kind \x7b",
  "    NullValue null_value = 1;",
  "    double number_value = 2;",
  "    string string_value = 3;",
  "    bool bool_value = 4;",
  "    Struct struct_value = 5;",
  "    ListValue list_value = 6;",
  "  \x7d",
  "\x7d",
  "",
  "// \x60NullValue\x60 is a singleton enumeration to represent the null value for the",
  "// \x60Value\x60 type union.",
  "enum NullValue \x7b",
  "  // Null value.",
  "  NULL_VALUE = 0;",
  "\x7d",
  "",
  "// \x60ListValue\x60 is a wrapper around a repeated field of values.",
  "message ListValue \x7b",
  "  // Repeated field of dynamically typed values.",
  "  repeated Value values = 1;",
  "\x7d",
  ""]

def timestampLines : List String := [
  "syntax = \"proto3\";",
  "",
  "package google.protobuf;",
  "",
  "option csharp_namespace = \"Google.Protobuf.WellKnownTypes\";",
  "option cc_enable_arenas = true;",
  "option go_package = \"google.golang.org/protobuf/types/known/timestamppb\";",
  "option java_package = \"com.google.protobuf\";",
  "option java_outer_classname = \"TimestampProto\";",
  "option java_multiple_files = true;",
  "option objc_class_prefix = \"GPB\";",
  "",
  "// A Timestamp represents a point in time independent of any time zone or local",
  "// calendar, encoded as a count of seconds and fractions of seconds at",
  "// nanosecond resolution.",
  "message Timestamp \x7b",
  "  // Represents seconds of UTC time since Unix epoch",
  "  // 1970-01-01T00:00:00Z.",
  "  int64 seconds = 1;",
  "",
  "  // Non-negative fractions of a second at nanosecond resolution.",
  "  int32 nanos = 2;",
  "\x7d",
  ""]

def typeLines : List String := [
  "syntax = \"proto3\";",
  "",
  "package google.protobuf;",
  "",
  "import \"google/protobuf/any.proto\";",
  "import \"google/protobuf/source_context.proto\";",
  "",
  "option csharp_namespace = \"Google.Protobuf.WellKnownTypes\";",
  "option cc_enable_arenas = true;",
  "option java_package = \"com.google.protobuf\";",
  "option java_outer_classname = \"TypeProto\";",
  "option java_multiple_files = true;",
  "option objc_class_prefix = \"GPB\";",
  "option go_package = \"google.golang.org/protobuf/types/known/typepb\";",
  "",
  "// A protocol buffer message type.",
  "message Type \x7b",
  "  string name = 1;",
  "  repeated Field fields = 2;",
  "  repeated string oneofs = 3;",
  "  repeated Option options = 4;",
  "  SourceContext source_context = 5;",
  "  Syntax syntax = 6;",
  "\x7d",
  "",
  "// A single field of a message type.",
  "message Field \x7b",
  "  // Basic field types.",
  "  enum Kind \x7b",
  "    TYPE_UNKNOWN = 0;",
  "    TYPE_DOUBLE = 1;",
  "    TYPE_FLOAT = 2;",
  "    TYPE_INT64 = 3;",
  "    TYPE_UINT64 = 4;",
  "    TYPE_INT32 = 5;",
  "    TYPE_FIXED64 = 6;",
  "    TYPE_FIXED32 = 7;",
  "    TYPE_BOOL = 8;",
  "    TYPE_STRING = 9;",
  "    TYPE_GROUP = 10;",
  "    TYPE_MESSAGE = 11;",
  "    TYPE_BYTES = 12;",
  "    TYPE_UINT32 = 13;",
  "    TYPE_ENUM = 14;",
  "    TYPE_SFIXED32 = 15;",
  "    TYPE_SFIXED64 = 16;",
  "    TYPE_SINT32 = 17;",
  "    TYPE_SINT64 = 18;",
  "  \x7d",
  "",
  "  // Whether a field is optional, required, or repeated.",
  "  enum Cardinality \x7b",
  "    CARDINALITY_UNKNOWN = 0;",
  "    CARDINALITY_OPTIONAL = 1;",
  "    CARDINALITY_REQUIRED = 2;",
  "    CARDINALITY_REPEATED = 3;",
  "  \x7d",
  "",
  "  Kind kind = 1;",
  "  Cardinality cardinality = 2;",
  "  int32 number = 3;",
  "  string name = 4;",
  "  string type_url = 6;",
  "  int32 oneof_index = 7;",
  "  bool packed = 8;",
  "  repeated Option options = 9;",
  "  string json_name = 10;",
  "  string default_value = 11;",
  "\x7d",
  "",
  "// Enum type definition.",
  "message Enum \x7b",
  "  string name = 1;",
  "  repeated EnumValue enumvalue = 2;",
  "  repeated Option options = 3;",
  "  SourceContext source_context = 4;",
  "  Syntax syntax = 5;",
  "\x7d",
  "",
  "// Enum value definition.",
  "message EnumValue \x7b",
  "  string name = 1;",
  "  int32 number = 2;",
  "  repeated Option options = 3;",
  "\x7d",
  "",
  "// A protocol buffer option, which can be attached to a message, field,",
  "// enumeration, etc.",
  "message Option \x7b",
  "  string name = 1;",
  "  Any value = 2;",
  "\x7d",
  "",
  "// The syntax in which a protocol buffer element is defined.",
  "enum Syntax \x7b",
  "  SYNTAX_PROTO2 = 0;",
  "  SYNTAX_PROTO3 = 1;",
  "\x7d",
  ""]

def wrappersLines : List String := [
  "syntax = \"proto3\";",
  "",
  "package google.protobuf;",
  "",
  "option csharp_namespace = \"Google.Protobuf.WellKnownTypes\";",
  "option cc_enable_arenas = true;",
  "option go_package = \"google.golang.org/protobuf/types/known/wrapperspb\";",
  "option java_package = \"com.google.protobuf\";",
  "option java_outer_classname = \"WrappersProto\";",
  "option java_multiple_files = true;",
  "option objc_class_prefix = \"GPB\";",
  "",
  "// Wrapper message for \x60double\x60.",
  "message DoubleValue \x7b",
  "  double value = 1;",
  "\x7d",
  "",
  "// Wrapper message for \x60float\x60.",
  "message FloatValue \x7b",
  "  float value = 1;",
  "\x7d",
  "",
  "// Wrapper message for \x60int64\x60.",
  "message Int64Value \x7b",
  "  int64 value = 1;",
  "\x7d",
  "",
  "// Wrapper message for \x60uint64\x60.",
  "message UInt64Value \x7b",
  "  uint64 value = 1;",
  "\x7d",
  "",
  "// Wrapper message for \x60int32\x60.",
  "message Int32Value \x7b",
  "  int32 value = 1;",
  "\x7d",
  "",
  "// Wrapper message for \x60uint32\x60.",
  "message UInt32Value \x7b",
  "  uint32 value = 1;",
  "\x7d",
  "",
  "// Wrapper message for \x60bool\x60.",
  "message BoolValue \x7b",
  "  bool value = 1;",
  "\x7d",
  "",
  "// Wrapper message for \x60string\x60.",
  "message StringValue \x7b",
  "  string value = 1;",
  "\x7d",
  "",
  "// Wrapper message for \x60bytes\x60.",
  "message BytesValue \x7b",
  "  bytes value = 1;",
  "\x7d",
  ""]

/-- The embedded files by name, sorted by name. -/
def files : List (String × List String) := [
  ("google/protobuf/any.proto", anyLines),
  ("google/protobuf/api.proto", apiLines),
  ("google/protobuf/descriptor.proto", descriptorLines),
  ("google/protobuf/duration.proto", durationLines),
  ("google/protobuf/empty.proto", emptyLines),
  ("google/protobuf/field_mask.proto", fieldMaskLines),
  ("google/protobuf/source_context.proto", sourceContextLines),
  ("google/protobuf/struct.proto", structLines),
  ("google/protobuf/timestamp.proto", timestampLines),
  ("google/protobuf/type.proto", typeLines),
  ("google/protobuf/wrappers.proto", wrappersLines)]

/-- The lines of the embedded file of a name. -/
def source? (name : String) : Option (List String) :=
  (files.find? (·.1 == name)).map (·.2)

def chars (lines : List String) : List Char :=
  List.intercalate ['\n'] (lines.map String.toList)

end WellKnown

end ProtoSchema
