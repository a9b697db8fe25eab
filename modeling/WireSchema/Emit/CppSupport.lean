import WireSchema.Emit.Basic

/-! # Support code in C++

The errors, and the classes that write and read bytes: their declarations for the header, and their
definitions for the source file. -/

namespace WireSchema.Emit.Cpp

/-- The errors. -/
def errorClasses : List Declaration := [
  ⟨"class ", "BufferUnderflowError", " : public std::runtime_error \x7b
public:
    BufferUnderflowError(size_t needed, size_t available)
        : std::runtime_error(\"Buffer underflow: needed \" + std::to_string(needed) +
                             \" bytes but only \" + std::to_string(available) + \" available\"),
          needed(needed), available(available) \x7b\x7d

    size_t needed;
    size_t available;
\x7d;

"⟩,
  ⟨"class ", "EnumDecodeError", " : public std::runtime_error \x7b
public:
    EnumDecodeError(const std::string& enumName, uint8_t value)
        : std::runtime_error(\"Invalid value \" + std::to_string(value) + \" for enum \" + enumName),
          enumName(enumName), value(value) \x7b\x7d

    std::string enumName;
    uint8_t value;
\x7d;

"⟩,
  ⟨"class ", "LengthOverflowError", " : public std::runtime_error \x7b
public:
    LengthOverflowError(size_t length, uint64_t max)
        : std::runtime_error(\"Length \" + std::to_string(length) +
                             \" does not fit in a prefix with maximum \" + std::to_string(max)),
          length(length), max(max) \x7b\x7d

    size_t length;
    uint64_t max;
\x7d;

"⟩]

/-- The class that writes bytes. -/
def writerClass : Declaration := ⟨"/**
 * Little-endian binary writer
 */
class ", "BinaryWriter", " \x7b
public:
    void writeUint8(uint8_t value);
    void writeUint16(uint16_t value);
    void writeUint32(uint32_t value);
    void writeUint64(uint64_t value);
    void writeInt8(int8_t value);
    void writeInt16(int16_t value);
    void writeInt32(int32_t value);
    void writeInt64(int64_t value);
    void writeFloat32(float value);
    void writeFloat64(double value);
    void writeBool(bool value);

    void writeFixedString(const std::string& value, size_t size);
    void writeString(const std::string& value);

    void writeBytes(const uint8_t* data, size_t size);
    void writeBytes(const std::vector<uint8_t>& data);

    template<size_t N>
    void writeBytes(const std::array<uint8_t, N>& data) \x7b
        writeBytes(data.data(), N);
    \x7d

    /** Byte count of `prefixWidth` bytes followed by the payload. */
    void writeLengthPrefixed(const std::vector<uint8_t>& data, size_t prefixWidth);
    void writeLengthPrefixedString(const std::string& value, size_t prefixWidth);

    template<typename T, typename F>
    void writeItems(const std::vector<T>& items, F writeItem) \x7b
        for (const auto& item : items) \x7b
            writeItem(*this, item);
        \x7d
    \x7d

    template<typename T, typename F>
    void writeLengthPrefixedItems(const std::vector<T>& items, size_t prefixWidth, F writeItem) \x7b
        BinaryWriter scratch;
        scratch.writeItems(items, writeItem);
        writeLengthPrefixed(scratch.data(), prefixWidth);
    \x7d

    const std::vector<uint8_t>& data() const \x7b return buffer_; \x7d
    size_t size() const \x7b return buffer_.size(); \x7d

private:
    std::vector<uint8_t> buffer_;
\x7d;

"⟩

/-- The class that reads bytes. -/
def readerClass : Declaration := ⟨"/**
 * Little-endian binary reader. Reads past the end throw BufferUnderflowError.
 */
class ", "BinaryReader", " \x7b
public:
    BinaryReader(const uint8_t* data, size_t size);

    uint8_t readUint8();
    uint16_t readUint16();
    uint32_t readUint32();
    uint64_t readUint64();
    int8_t readInt8();
    int16_t readInt16();
    int32_t readInt32();
    int64_t readInt64();
    float readFloat32();
    double readFloat64();
    bool readBool();

    std::string readFixedString(size_t size);
    std::vector<uint8_t> readBytes(size_t length);
    std::vector<uint8_t> readRemaining();
    std::string readRemainingString();
    std::vector<uint8_t> readLengthPrefixed(size_t prefixWidth);
    std::string readLengthPrefixedString(size_t prefixWidth);

    template<size_t N>
    std::array<uint8_t, N> readFixedBytes() \x7b
        ensure(N);
        std::array<uint8_t, N> result\x7b\x7d;
        std::memcpy(result.data(), data_ + offset_, N);
        offset_ += N;
        return result;
    \x7d

    template<typename T, typename F>
    std::vector<T> readItems(F readItem) \x7b
        std::vector<T> items;
        while (remaining() > 0) \x7b
            size_t start = offset_;
            items.push_back(readItem(*this));
            if (offset_ == start) \x7b
                throw std::runtime_error(\"Array item consumed no bytes\");
            \x7d
        \x7d
        return items;
    \x7d

    template<typename T, typename F>
    std::vector<T> readLengthPrefixedItems(size_t prefixWidth, F readItem) \x7b
        std::vector<uint8_t> span = readLengthPrefixed(prefixWidth);
        BinaryReader inner(span.data(), span.size());
        return inner.readItems<T>(readItem);
    \x7d

    size_t position() const \x7b return offset_; \x7d
    size_t remaining() const \x7b return size_ - offset_; \x7d

private:
    void ensure(size_t size) const;

    const uint8_t* data_;
    size_t size_;
    size_t offset_ = 0;
\x7d;
"⟩

/-- How bytes are written. -/
def writerDefs : String := "// BinaryWriter implementation
void BinaryWriter::writeUint8(uint8_t value) \x7b
    buffer_.push_back(value);
\x7d

void BinaryWriter::writeUint16(uint16_t value) \x7b
    buffer_.push_back(value & 0xFF);
    buffer_.push_back((value >> 8) & 0xFF);
\x7d

void BinaryWriter::writeUint32(uint32_t value) \x7b
    for (int i = 0; i < 4; i++) \x7b
        buffer_.push_back((value >> (i * 8)) & 0xFF);
    \x7d
\x7d

void BinaryWriter::writeUint64(uint64_t value) \x7b
    for (int i = 0; i < 8; i++) \x7b
        buffer_.push_back((value >> (i * 8)) & 0xFF);
    \x7d
\x7d

void BinaryWriter::writeInt8(int8_t value) \x7b
    writeUint8(static_cast<uint8_t>(value));
\x7d

void BinaryWriter::writeInt16(int16_t value) \x7b
    writeUint16(static_cast<uint16_t>(value));
\x7d

void BinaryWriter::writeInt32(int32_t value) \x7b
    writeUint32(static_cast<uint32_t>(value));
\x7d

void BinaryWriter::writeInt64(int64_t value) \x7b
    writeUint64(static_cast<uint64_t>(value));
\x7d

void BinaryWriter::writeFloat32(float value) \x7b
    uint32_t bits;
    std::memcpy(&bits, &value, sizeof(bits));
    writeUint32(bits);
\x7d

void BinaryWriter::writeFloat64(double value) \x7b
    uint64_t bits;
    std::memcpy(&bits, &value, sizeof(bits));
    writeUint64(bits);
\x7d

void BinaryWriter::writeBool(bool value) \x7b
    writeUint8(value ? 1 : 0);
\x7d

void BinaryWriter::writeFixedString(const std::string& value, size_t size) \x7b
    size_t used = value.size() < size ? value.size() : size;
    writeBytes(reinterpret_cast<const uint8_t*>(value.data()), used);
    buffer_.insert(buffer_.end(), size - used, 0);
\x7d

void BinaryWriter::writeString(const std::string& value) \x7b
    writeBytes(reinterpret_cast<const uint8_t*>(value.data()), value.size());
\x7d

void BinaryWriter::writeBytes(const uint8_t* data, size_t size) \x7b
    buffer_.insert(buffer_.end(), data, data + size);
\x7d

void BinaryWriter::writeBytes(const std::vector<uint8_t>& data) \x7b
    buffer_.insert(buffer_.end(), data.begin(), data.end());
\x7d

void BinaryWriter::writeLengthPrefixed(const std::vector<uint8_t>& data, size_t prefixWidth) \x7b
    uint64_t max = prefixWidth >= 8 ? UINT64_MAX : ((uint64_t\x7b1\x7d << (prefixWidth * 8)) - 1);
    if (static_cast<uint64_t>(data.size()) > max) \x7b
        throw LengthOverflowError(data.size(), max);
    \x7d
    switch (prefixWidth) \x7b
        case 1:
            writeUint8(static_cast<uint8_t>(data.size()));
            break;
        case 2:
            writeUint16(static_cast<uint16_t>(data.size()));
            break;
        case 4:
            writeUint32(static_cast<uint32_t>(data.size()));
            break;
        default:
            writeUint64(static_cast<uint64_t>(data.size()));
            break;
    \x7d
    writeBytes(data);
\x7d

void BinaryWriter::writeLengthPrefixedString(const std::string& value, size_t prefixWidth) \x7b
    writeLengthPrefixed(std::vector<uint8_t>(value.begin(), value.end()), prefixWidth);
\x7d

"

/-- How bytes are read. -/
def readerDefs : String := "// BinaryReader implementation
BinaryReader::BinaryReader(const uint8_t* data, size_t size)
    : data_(data), size_(size) \x7b\x7d

void BinaryReader::ensure(size_t size) const \x7b
    if (size > remaining()) \x7b
        throw BufferUnderflowError(size, remaining());
    \x7d
\x7d

uint8_t BinaryReader::readUint8() \x7b
    ensure(1);
    return data_[offset_++];
\x7d

uint16_t BinaryReader::readUint16() \x7b
    ensure(2);
    uint16_t value = static_cast<uint16_t>(data_[offset_]) |
                     (static_cast<uint16_t>(data_[offset_ + 1]) << 8);
    offset_ += 2;
    return value;
\x7d

uint32_t BinaryReader::readUint32() \x7b
    ensure(4);
    uint32_t value = 0;
    for (int i = 0; i < 4; i++) \x7b
        value |= static_cast<uint32_t>(data_[offset_ + i]) << (i * 8);
    \x7d
    offset_ += 4;
    return value;
\x7d

uint64_t BinaryReader::readUint64() \x7b
    ensure(8);
    uint64_t value = 0;
    for (int i = 0; i < 8; i++) \x7b
        value |= static_cast<uint64_t>(data_[offset_ + i]) << (i * 8);
    \x7d
    offset_ += 8;
    return value;
\x7d

int8_t BinaryReader::readInt8() \x7b
    return static_cast<int8_t>(readUint8());
\x7d

int16_t BinaryReader::readInt16() \x7b
    return static_cast<int16_t>(readUint16());
\x7d

int32_t BinaryReader::readInt32() \x7b
    return static_cast<int32_t>(readUint32());
\x7d

int64_t BinaryReader::readInt64() \x7b
    return static_cast<int64_t>(readUint64());
\x7d

float BinaryReader::readFloat32() \x7b
    uint32_t bits = readUint32();
    float value;
    std::memcpy(&value, &bits, sizeof(value));
    return value;
\x7d

double BinaryReader::readFloat64() \x7b
    uint64_t bits = readUint64();
    double value;
    std::memcpy(&value, &bits, sizeof(value));
    return value;
\x7d

bool BinaryReader::readBool() \x7b
    return readUint8() != 0;
\x7d

std::string BinaryReader::readFixedString(size_t size) \x7b
    ensure(size);
    const char* start = reinterpret_cast<const char*>(data_ + offset_);
    offset_ += size;
    size_t length = 0;
    while (length < size && start[length] != '\\0') \x7b
        length++;
    \x7d
    return std::string(start, length);
\x7d

std::vector<uint8_t> BinaryReader::readBytes(size_t length) \x7b
    ensure(length);
    std::vector<uint8_t> result(data_ + offset_, data_ + offset_ + length);
    offset_ += length;
    return result;
\x7d

std::vector<uint8_t> BinaryReader::readRemaining() \x7b
    return readBytes(remaining());
\x7d

std::string BinaryReader::readRemainingString() \x7b
    std::vector<uint8_t> bytes = readRemaining();
    return std::string(bytes.begin(), bytes.end());
\x7d

std::vector<uint8_t> BinaryReader::readLengthPrefixed(size_t prefixWidth) \x7b
    uint64_t length;
    switch (prefixWidth) \x7b
        case 1:
            length = readUint8();
            break;
        case 2:
            length = readUint16();
            break;
        case 4:
            length = readUint32();
            break;
        default:
            length = readUint64();
            break;
    \x7d
    if (length > remaining()) \x7b
        throw BufferUnderflowError(static_cast<size_t>(length), remaining());
    \x7d
    return readBytes(static_cast<size_t>(length));
\x7d

std::string BinaryReader::readLengthPrefixedString(size_t prefixWidth) \x7b
    std::vector<uint8_t> bytes = readLengthPrefixed(prefixWidth);
    return std::string(bytes.begin(), bytes.end());
\x7d
"

/-- The classes of the support code. -/
def supportClasses : List Declaration := errorClasses ++ [writerClass, readerClass]

/-- The types that the support code declares. -/
def supportTypes : List String := supportClasses.map (·.name)

/-- The support code in the header. -/
def headerSupport : String := String.join (supportClasses.map (·.text))

/-- The support code in the source file. -/
def sourceSupport : String := writerDefs ++ readerDefs

end WireSchema.Emit.Cpp
